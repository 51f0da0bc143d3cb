import PersonalOS.EventRouting

/-! # How often an event is routed

Deliveries of events, workers and requests, interleaved step by step.

* **Steps.** `RoutingStep` says what one step does to the queue, to the thread bindings, which no
  step takes back, and to the answers.
* **Keys.** A command's dedupe key names its workflow and its kind besides the event, so the queue
  holds one command for each answer the lookup has given (`RoutedBy`).
* **Once.** `routed_once_iff`: there is at most one command exactly when the lookup has told every
  delivery the same. -/

namespace PersonalOS

open Concurrent Concurrent.Prog

/-! ### What a step does -/

/-- The row an answer of the lookup is routed to. -/
def RoutedAs (s : RoutingState) (digest : String) : Option UUID → CommandRow → Prop
  | some workflowId, row => row.key = (workflowId, .resume, .event digest)
  | none, row => ∃ workflowId, s.boundTo (eventHandlerThreadId digest) = some workflowId ∧
      row.key = (workflowId, .start, .event digest)

/-- The update changes neither the command of a row nor its dedupe. -/
def SameCommand (f : CommandRow → CommandRow) : Prop :=
  ∀ row, (f row).command = row.command ∧ (f row).dedupe = row.dedupe

/-- What one step does. -/
inductive RoutingStep (s : RoutingState) : RoutingState → Prop where
  | quiet : RoutingStep s s
  | minted : RoutingStep s (createWorkflow s).2
  | registered (row : ThreadRow) : RoutingStep s (register row s).2
  | stopped (threadId : String) (interrupts : List (Option String)) :
      RoutingStep s (s.stopAt threadId interrupts)
  | updated (f : CommandRow → CommandRow) : SameCommand f →
      RoutingStep s { s with table := { s.table with rows := s.table.rows.map f } }
  | queued (command : UUID → WorkflowCommand) (dedupe : Option Dedupe) :
      (∀ digest, (CommandRow.queued (command s.table.nextCommand) dedupe).dedupe ≠ .event digest) →
      RoutingStep s { s with table := (CommandTable.enqueue command dedupe s.table).2 }
  | routed (event : DeliveredEvent) (answer : Option UUID) (command : UUID → WorkflowCommand) :
      RoutedAs s event.digest answer
        (.queued (command s.table.nextCommand) (some (.event event.digest))) →
      RoutingStep s (RoutingState.route event answer command s).2

/-- No binding is taken back. -/
def KeepsBindings (s s' : RoutingState) : Prop :=
  ∀ threadId workflowId, s.boundTo threadId = some workflowId →
    s'.boundTo threadId = some workflowId

theorem RoutedAs.kept {s s' : RoutingState} {digest : String} {answer : Option UUID}
    {row : CommandRow} (h : RoutedAs s digest answer row) (hs : KeepsBindings s s') :
    RoutedAs s' digest answer row := by
  cases answer with
  | some workflowId => exact h
  | none =>
      obtain ⟨workflowId, hbound, hkey⟩ := h
      exact ⟨workflowId, hs _ _ hbound, hkey⟩

theorem register_bound (row : ThreadRow) (s : RoutingState) :
    (register row s).2.boundTo row.threadId = some (register row s).1 := by
  unfold register
  cases hbound : s.boundTo row.threadId with
  | some workflowId => exact hbound
  | none =>
      have hnone : s.threads.find? (·.threadId == row.threadId) = none :=
        Option.map_eq_none_iff.mp hbound
      show Option.map _ ((s.threads ++ [row]).find? _) = _
      rw [List.find?_append, hnone]
      simp

theorem register_keeps (row : ThreadRow) (s : RoutingState) :
    KeepsBindings s (register row s).2 := by
  intro threadId workflowId hbound
  unfold register
  split
  · exact hbound
  · obtain ⟨found, hfound, hworkflow⟩ := Option.map_eq_some_iff.mp hbound
    show Option.map _ ((s.threads ++ [row]).find? _) = _
    rw [List.find?_append, hfound]
    exact congrArg some hworkflow

theorem stopAt_boundTo (s : RoutingState) (threadId threadId' : String)
    (interrupts : List (Option String)) :
    (s.stopAt threadId interrupts).boundTo threadId' = s.boundTo threadId' := by
  unfold RoutingState.boundTo RoutingState.stopAt
  dsimp only
  induction s.threads with
  | nil => rfl
  | cons row rows ih =>
      simp only [List.map_cons, List.find?_cons]
      have hid : (if row.threadId = threadId then { row with interrupts } else row).threadId =
          row.threadId := by split <;> rfl
      rw [hid]
      split
      · split <;> rfl
      · exact ih

theorem RoutingStep.keepsBindings {s s' : RoutingState} (h : RoutingStep s s') :
    KeepsBindings s s' := by
  intro threadId workflowId hbound
  cases h with
  | registered row => exact register_keeps row s _ _ hbound
  | stopped threadId' interrupts =>
      rw [stopAt_boundTo]
      exact hbound
  | quiet => exact hbound
  | minted => exact hbound
  | updated f _ => exact hbound
  | queued command dedupe _ => exact hbound
  | routed event answer command _ => exact hbound

/-- The contract of every process: the others take no binding back. -/
def routingContract : Contract RoutingState where
  rely := KeepsBindings
  guar := RoutingStep
  assume _ _ := True
  rely_refl _ _ _ h := h
  rely_trans h₁ h₂ _ _ h := h₂ _ _ (h₁ _ _ h)

/-! ### The programs keep the contract -/

section programs

variable {s : RoutingState} {α β : Type}

/-- Every step of `p` from `s` is a `RoutingStep`. -/
abbrev TakesRoutingSteps (p : RoutingProgram α) (s : RoutingState) : Prop :=
  p.wp routingContract (fun _ _ => True) (fun _ _ => True) s

theorem wp_lookUp {f : RoutingState → β} {k : β → RoutingProgram α}
    {Q : α → RoutingState → Prop} (h : ∀ s', (k (f s')).wp routingContract Q (fun _ _ => True) s') :
    (read f >>= k).wp routingContract Q (fun _ _ => True) s :=
  fun s' _ _ _ => ⟨.quiet, h s'⟩

theorem wp_change {f : RoutingInput → RoutingState → β × RoutingState} {k : β → RoutingProgram α}
    (h : ∀ i s', KeepsBindings s s' →
      RoutingStep s' (f i s').2 ∧ TakesRoutingSteps (k (f i s').1) (f i s').2) :
    TakesRoutingSteps (act f >>= k) s :=
  fun s' hr i _ => h i s' hr

theorem firstWaiting_spec (workflowIds : List UUID) : TakesRoutingSteps (firstWaiting workflowIds) s := by
  induction workflowIds generalizing s with
  | nil => exact fun _ _ => trivial
  | cons workflowId rest ih =>
      refine wp_lookUp fun s₁ => wp_lookUp fun s₂ => ?_
      split
      · exact fun _ _ => trivial
      · exact ih

theorem waiting_spec (event : DeliveredEvent) : TakesRoutingSteps event.waiting s := by
  unfold DeliveredEvent.waiting
  split
  · exact wp_lookUp fun s₁ => firstWaiting_spec _
  · exact fun _ _ => trivial

theorem registerEventHandlerThread_spec (event : DeliveredEvent) :
    (registerEventHandlerThread event).wp routingContract
      (fun workflowId s' => s'.boundTo (eventHandlerThreadId event.digest) = some workflowId)
      (fun _ _ => True) s := by
  intro s₁ _ _ _
  refine ⟨.quiet, ?_⟩
  dsimp only
  cases hbound : s₁.boundTo (eventHandlerThreadId event.digest) with
  | some workflowId => exact fun s₂ hr => hr _ _ hbound
  | none =>
      intro s₂ _ _ _
      refine ⟨.minted, fun s₃ _ _ _ => ⟨.registered _, fun s₄ hr => ?_⟩⟩
      exact hr _ _ (register_bound _ s₃)

theorem enqueueRouted_spec {event : DeliveredEvent} {answer : Option UUID}
    {command : UUID → WorkflowCommand} {kind : RouteKind}
    (h : ∀ s', KeepsBindings s s' → RoutedAs s' event.digest answer
      (.queued (command s'.table.nextCommand) (some (.event event.digest)))) :
    TakesRoutingSteps (enqueueRouted event answer command kind) s := by
  refine wp_change fun _ s₁ hr => ⟨.routed event answer command (h s₁ hr), ?_⟩
  split <;> exact fun _ _ => trivial

theorem routeDelivery_spec (event : DeliveredEvent) (startTypes : Option (List String)) :
    TakesRoutingSteps (routeDelivery event startTypes) s := by
  refine wp_bind (wp_mono (waiting_spec event) (fun waiting s₁ _ => ?_) fun _ _ h => h)
  cases waiting with
  | some waiting => exact enqueueRouted_spec fun s₂ _ => rfl
  | none =>
      dsimp only
      split
      · refine wp_bind (wp_mono (registerEventHandlerThread_spec event) (fun workflowId s₂ hbound => ?_)
          fun _ _ h => h)
        exact enqueueRouted_spec fun s₃ hr => ⟨workflowId, hr _ _ hbound, rfl⟩
      · exact fun _ _ => trivial

theorem sameCommand_only {f : CommandRow → CommandRow} (h : SameCommand f) (commandId : UUID) :
    SameCommand fun row => if row.command.commandId = commandId then f row else row := by
  intro row
  dsimp only
  split
  · exact h row
  · exact ⟨rfl, rfl⟩

theorem claim_sameCommand : SameCommand CommandRow.claim := by
  intro row
  unfold CommandRow.claim
  split <;> exact ⟨rfl, rfl⟩

theorem settlement_sameCommand (settlement : Settlement) : SameCommand settlement.apply := by
  intro row
  cases settlement with
  | done => exact ⟨rfl, rfl⟩
  | failed => exact ⟨rfl, rfl⟩
  | released =>
      simp only [Settlement.apply, CommandRow.release]
      split <;> exact ⟨rfl, rfl⟩

theorem runSteps_spec (threadId : String) (steps : ℕ) : TakesRoutingSteps (runSteps threadId steps) s := by
  induction steps generalizing s with
  | zero => exact fun _ _ => trivial
  | succ n ih => exact wp_change fun i s₁ _ => ⟨.stopped threadId i.interrupts, ih⟩

theorem processCommand_spec (steps : ℕ) : TakesRoutingSteps (processCommand steps) s := by
  refine wp_change fun i s₁ _ => ?_
  dsimp only
  cases hrow : s₁.table.rows[i.candidate]? with
  | none =>
      simp only [CommandTable.claimNext, hrow]
      exact ⟨.quiet, fun _ _ => trivial⟩
  | some row =>
      simp only [CommandTable.claimNext, hrow]
      split
      · refine ⟨.updated _ (sameCommand_only claim_sameCommand _), ?_⟩
        refine wp_bind (wp_mono (runSteps_spec _ steps) (fun _ s₂ _ => ?_) fun _ _ h => h)
        intro s₃ _ j _
        exact ⟨.updated _ (sameCommand_only (settlement_sameCommand _) _), fun _ _ => trivial⟩
      · exact ⟨.quiet, fun _ _ => trivial⟩

theorem routingCall_spec (call : RoutingCall) : TakesRoutingSteps call.program s := by
  cases call with
  | deliver event startTypes =>
      exact wp_bind (wp_mono (routeDelivery_spec event startTypes)
        (fun _ _ _ => fun _ _ => trivial) fun _ _ h => h)
  | work steps => exact processCommand_spec steps
  | queue thread request kind interruptIds checkpointId =>
      refine wp_change fun _ s₁ _ => ⟨.queued _ _ fun digest => ?_, fun _ _ => trivial⟩
      cases checkpointId with
      | none => exact nofun
      | some checkpointId => exact nofun
  | register row => exact wp_change fun _ s₁ _ => ⟨.registered row, fun _ _ => trivial⟩

end programs

/-! ### One command for each answer -/

/-- The commands queued for an event are those of the answers its deliveries got. -/
structure RoutedBy (digest : String) (s : RoutingState) : Prop where
  distinct : ((s.commandsFor digest).map (·.key)).Nodup
  answered : ∀ row ∈ s.commandsFor digest, ∃ answer, (digest, answer) ∈ s.answers ∧
    RoutedAs s digest answer row
  queued : ∀ answer, (digest, answer) ∈ s.answers → ∃ row ∈ s.commandsFor digest,
    RoutedAs s digest answer row

theorem RoutedAs.key_eq_iff {s : RoutingState} {digest : String} {a b : Option UUID}
    {row row' : CommandRow} (h : RoutedAs s digest a row) (h' : RoutedAs s digest b row') :
    row.key = row'.key ↔ a = b := by
  cases a with
  | some workflowId =>
      have hkey : row.key = (workflowId, .resume, .event digest) := h
      cases b with
      | some workflowId' =>
          have hkey' : row'.key = (workflowId', .resume, .event digest) := h'
          simp [hkey, hkey']
      | none =>
          obtain ⟨workflowId', -, hkey'⟩ := h'
          simp [hkey, hkey']
  | none =>
      obtain ⟨workflowId, hbound, hkey⟩ := h
      cases b with
      | some workflowId' =>
          have hkey' : row'.key = (workflowId', .resume, .event digest) := h'
          simp [hkey, hkey']
      | none =>
          obtain ⟨workflowId', hbound', hkey'⟩ := h'
          rw [hbound] at hbound'
          simp [hkey, hkey', Option.some.inj hbound']

theorem RoutedAs.of_key {s : RoutingState} {digest : String} {answer : Option UUID}
    {row row' : CommandRow} (h : RoutedAs s digest answer row) (hkey : row'.key = row.key) :
    RoutedAs s digest answer row' := by
  cases answer with
  | some workflowId => exact hkey.trans h
  | none =>
      obtain ⟨workflowId, hbound, hrow⟩ := h
      exact ⟨workflowId, hbound, hkey.trans hrow⟩

theorem CommandTable.enqueue_rows (command : UUID → WorkflowCommand) (dedupe : Option Dedupe)
    (table : CommandTable) :
    ((CommandTable.enqueue command dedupe table).2.rows =
        table.rows ++ [.queued (command table.nextCommand) dedupe] ∧
      ∀ row ∈ table.rows, row.key ≠ (CommandRow.queued (command table.nextCommand) dedupe).key) ∨
    ((CommandTable.enqueue command dedupe table).2.rows = table.rows ∧
      ∃ row ∈ table.rows, row.key = (CommandRow.queued (command table.nextCommand) dedupe).key) := by
  unfold CommandTable.enqueue PersonalOS.enqueue
  cases hany : table.rows.any
      (·.key == (CommandRow.queued (command table.nextCommand) dedupe).key) with
  | true =>
      obtain ⟨row, hrow, hkey⟩ := List.any_eq_true.mp hany
      exact Or.inr ⟨by simp, row, hrow, eq_of_beq hkey⟩
  | false =>
      refine Or.inl ⟨by simp, fun row hrow hkey => ?_⟩
      have hnone := List.any_eq_false.mp hany row hrow
      exact hnone (beq_iff_eq.mpr hkey)

namespace RoutedBy

variable {digest : String} {s s' : RoutingState}

theorem of_same (h : RoutedBy digest s) (hs : KeepsBindings s s') (hanswers : s'.answers = s.answers)
    (hrows : s'.commandsFor digest = s.commandsFor digest) : RoutedBy digest s' := by
  refine ⟨hrows ▸ h.distinct, fun row hrow => ?_, fun answer hanswer => ?_⟩
  · rw [hrows] at hrow
    obtain ⟨answer, hmem, hrouted⟩ := h.answered row hrow
    exact ⟨answer, hanswers ▸ hmem, hrouted.kept hs⟩
  · rw [hanswers] at hanswer
    obtain ⟨row, hmem, hrouted⟩ := h.queued answer hanswer
    exact ⟨row, hrows ▸ hmem, hrouted.kept hs⟩

theorem updated (h : RoutedBy digest s) {f : CommandRow → CommandRow} (hf : SameCommand f) :
    RoutedBy digest { s with table := { s.table with rows := s.table.rows.map f } } := by
  have hkey : ∀ row, (f row).key = row.key := by
    intro row
    unfold CommandRow.key
    rw [(hf row).1, (hf row).2]
  have hrows : RoutingState.commandsFor
      { s with table := { s.table with rows := s.table.rows.map f } } digest =
        (s.commandsFor digest).map f := by
    unfold RoutingState.commandsFor
    rw [List.filter_map]
    congr 1
    refine List.filter_congr fun row _ => ?_
    simp [(hf row).2]
  have hrouted : ∀ answer row, RoutedAs s digest answer row → RoutedAs s digest answer (f row) := by
    intro answer row hrouted
    cases answer with
    | some workflowId => exact (hkey row).trans hrouted
    | none =>
        obtain ⟨workflowId, hbound, hrow⟩ := hrouted
        exact ⟨workflowId, hbound, (hkey row).trans hrow⟩
  refine ⟨?_, fun row hrow => ?_, fun answer hanswer => ?_⟩
  · rw [hrows, List.map_map]
    have hkeys : (fun row : CommandRow => row.key) ∘ f = fun row => row.key := funext hkey
    rw [hkeys]
    exact h.distinct
  · rw [hrows] at hrow
    obtain ⟨old, hold, rfl⟩ := List.mem_map.mp hrow
    obtain ⟨answer, hmem, h'⟩ := h.answered old hold
    exact ⟨answer, hmem, hrouted answer old h'⟩
  · obtain ⟨old, hold, h'⟩ := h.queued answer hanswer
    exact ⟨f old, hrows ▸ List.mem_map_of_mem hold, hrouted answer old h'⟩

theorem of_queued (h : RoutedBy digest s) {command : UUID → WorkflowCommand} {dedupe : Option Dedupe}
    (hdedupe : ∀ digest,
      (CommandRow.queued (command s.table.nextCommand) dedupe).dedupe ≠ .event digest) :
    RoutedBy digest { s with table := (CommandTable.enqueue command dedupe s.table).2 } := by
  refine h.of_same (fun _ _ hbound => hbound) rfl ?_
  unfold RoutingState.commandsFor
  rcases CommandTable.enqueue_rows command dedupe s.table with ⟨hrows, -⟩ | ⟨hrows, -⟩
  · dsimp only
    rw [hrows, List.filter_append, List.filter_cons_of_neg (by simp [hdedupe]), List.filter_nil,
      List.append_nil]
  · dsimp only
    rw [hrows]

theorem of_routed_ne (h : RoutedBy digest s) {event : DeliveredEvent} (hne : event.digest ≠ digest)
    {answer : Option UUID} {command : UUID → WorkflowCommand} :
    RoutedBy digest (RoutingState.route event answer command s).2 := by
  have hrows : (RoutingState.route event answer command s).2.commandsFor digest =
      s.commandsFor digest := by
    unfold RoutingState.commandsFor RoutingState.route
    dsimp only
    rcases CommandTable.enqueue_rows command (some (.event event.digest)) s.table with
      ⟨hrows, -⟩ | ⟨hrows, -⟩
    · rw [hrows, List.filter_append, List.filter_cons_of_neg (by simp [CommandRow.queued, hne]),
        List.filter_nil, List.append_nil]
    · rw [hrows]
  refine ⟨hrows ▸ h.distinct, fun row hrow => ?_, fun answer' hanswer => ?_⟩
  · rw [hrows] at hrow
    obtain ⟨answer', hmem, hrouted⟩ := h.answered row hrow
    exact ⟨answer', List.mem_cons_of_mem _ hmem, hrouted⟩
  · rcases List.mem_cons.mp hanswer with heq | hmem
    · exact absurd (Prod.mk.inj heq).1.symm hne
    · obtain ⟨row, hmem, hrouted⟩ := h.queued answer' hmem
      exact ⟨row, hrows ▸ hmem, hrouted⟩

theorem of_routed {event : DeliveredEvent} (h : RoutedBy event.digest s) {answer : Option UUID}
    {command : UUID → WorkflowCommand} (hrouted : RoutedAs s event.digest answer
      (.queued (command s.table.nextCommand) (some (.event event.digest)))) :
    RoutedBy event.digest (RoutingState.route event answer command s).2 := by
  generalize hrow : CommandRow.queued (command s.table.nextCommand)
    (some (.event event.digest)) = row at hrouted
  have hdedupe : row.dedupe = .event event.digest := by rw [← hrow]; rfl
  rcases CommandTable.enqueue_rows command (some (.event event.digest)) s.table with
    ⟨hrows, hnew⟩ | ⟨hrows, old, hold, hkey⟩
  · rw [hrow] at hrows hnew
    have hcommands : (RoutingState.route event answer command s).2.commandsFor event.digest =
        s.commandsFor event.digest ++ [row] := by
      unfold RoutingState.commandsFor RoutingState.route
      dsimp only
      rw [hrows, List.filter_append, List.filter_cons_of_pos (by simp [hdedupe]), List.filter_nil]
    refine ⟨?_, fun row' hrow' => ?_, fun answer' hanswer => ?_⟩
    · rw [hcommands, List.map_append, List.nodup_append]
      refine ⟨h.distinct, by simp, fun key hkey key' hkey' heq => ?_⟩
      obtain ⟨row', hrow', rfl⟩ := List.mem_map.mp hkey
      obtain rfl := List.mem_singleton.mp hkey'
      exact hnew row' (List.mem_of_mem_filter hrow') heq
    · rw [hcommands] at hrow'
      rcases List.mem_append.mp hrow' with hrow' | hrow'
      · obtain ⟨answer', hmem, hrouted'⟩ := h.answered row' hrow'
        exact ⟨answer', List.mem_cons_of_mem _ hmem, hrouted'⟩
      · obtain rfl := List.mem_singleton.mp hrow'
        exact ⟨answer, List.mem_cons_self, hrouted⟩
    · rw [hcommands]
      rcases List.mem_cons.mp hanswer with heq | hmem
      · rw [(Prod.mk.inj heq).2]
        exact ⟨row, List.mem_append_right _ List.mem_cons_self, hrouted⟩
      · obtain ⟨row', hmem, hrouted'⟩ := h.queued answer' hmem
        exact ⟨row', List.mem_append_left _ hmem, hrouted'⟩
  · rw [hrow] at hkey
    have hcommands : (RoutingState.route event answer command s).2.commandsFor event.digest =
        s.commandsFor event.digest := by
      unfold RoutingState.commandsFor RoutingState.route
      dsimp only
      rw [hrows]
    have holdDedupe : old.dedupe = .event event.digest := by
      have hparts := congrArg (·.2.2) hkey
      exact hparts.trans hdedupe
    refine ⟨hcommands ▸ h.distinct, fun row' hrow' => ?_, fun answer' hanswer => ?_⟩
    · rw [hcommands] at hrow'
      obtain ⟨answer', hmem, hrouted'⟩ := h.answered row' hrow'
      exact ⟨answer', List.mem_cons_of_mem _ hmem, hrouted'⟩
    · rw [hcommands]
      rcases List.mem_cons.mp hanswer with heq | hmem
      · rw [(Prod.mk.inj heq).2]
        exact ⟨old, List.mem_filter.mpr ⟨hold, by simp [holdDedupe]⟩, hrouted.of_key hkey⟩
      · exact h.queued answer' hmem

theorem step (h : RoutedBy digest s) (hs : RoutingStep s s') : RoutedBy digest s' := by
  cases hs with
  | quiet => exact h
  | minted => exact h.of_same (fun _ _ hbound => hbound) rfl rfl
  | registered row =>
      refine h.of_same (register_keeps row s) ?_ ?_
      · unfold register
        split <;> rfl
      · unfold register
        split <;> rfl
  | stopped threadId interrupts =>
      exact h.of_same (RoutingStep.stopped threadId interrupts).keepsBindings rfl rfl
  | updated f hf => exact h.updated hf
  | queued command dedupe hdedupe => exact h.of_queued hdedupe
  | routed event answer command hrouted =>
      by_cases hdigest : event.digest = digest
      · subst hdigest
        exact h.of_routed hrouted
      · exact h.of_routed_ne hdigest

theorem length_le_one_iff (h : RoutedBy digest s) :
    (s.commandsFor digest).length ≤ 1 ↔
      ∀ a b, (digest, a) ∈ s.answers → (digest, b) ∈ s.answers → a = b := by
  constructor
  · intro hlength a b ha hb
    obtain ⟨row, hrow, hrouted⟩ := h.queued a ha
    obtain ⟨row', hrow', hrouted'⟩ := h.queued b hb
    have hrows : row = row' := by
      obtain ⟨only, hcommands⟩ := List.length_eq_one_iff.mp
        (Nat.le_antisymm hlength (List.length_pos_of_mem hrow))
      rw [hcommands] at hrow hrow'
      rw [List.mem_singleton.mp hrow, List.mem_singleton.mp hrow']
    exact (hrouted.key_eq_iff hrouted').mp (by rw [hrows])
  · intro hagree
    have hkeys : ∀ row ∈ s.commandsFor digest, ∀ row' ∈ s.commandsFor digest, row.key = row'.key := by
      intro row hrow row' hrow'
      obtain ⟨a, ha, hrouted⟩ := h.answered row hrow
      obtain ⟨b, hb, hrouted'⟩ := h.answered row' hrow'
      exact (hrouted.key_eq_iff hrouted').mpr (hagree a b ha hb)
    have hdistinct := h.distinct
    cases hcommands : s.commandsFor digest with
    | nil => exact Nat.zero_le 1
    | cons row rest =>
        rw [hcommands] at hkeys hdistinct
        cases rest with
        | nil => exact Nat.le_refl 1
        | cons row' rest =>
            have heq := hkeys row List.mem_cons_self row' (List.mem_cons_of_mem _ List.mem_cons_self)
            rw [List.map_cons, List.map_cons, heq] at hdistinct
            exact absurd List.mem_cons_self (List.nodup_cons.mp hdistinct).1

end RoutedBy

/-! ### Runs -/

section runs

variable {τ : Type} [DecidableEq τ] {calls : τ → RoutingCall} {start : RoutingState}
variable {digest : String}

theorem routingPool_routedBy (hnone : start.commandsFor digest = []) (hanswers : start.answers = [])
    (sched : List (τ × RoutingInput)) : RoutedBy digest ((routingPool calls start).run sched).state := by
  refine Pool.run_inv (K := fun _ => routingContract) (Q := fun _ _ _ => True)
    (E := fun _ _ _ => True) (fun t => routingCall_spec (calls t)) (fun _ => rfl)
    (fun _ _ _ _ _ hs => RoutingStep.keepsBindings hs) (fun _ _ _ _ _ hs h => RoutedBy.step h hs)
    (Pool.meets_true _ sched) ?_
  refine ⟨?_, fun row hrow => ?_, fun answer hanswer => ?_⟩
  · show (start.commandsFor digest |>.map _).Nodup
    rw [hnone]
    exact List.nodup_nil
  · rw [show ((routingPool calls start).state).commandsFor digest = [] from hnone] at hrow
    cases hrow
  · rw [show (routingPool calls start).state.answers = [] from hanswers] at hanswer
    cases hanswer

/-- **Routing once**: whatever deliveries, workers and other processes do, in any order, there is at
most one command of an event exactly when the wait lookup has told every delivery of it that queued
its command the same: that nothing waits, or that the same workflow does. -/
theorem routed_once_iff (hnone : start.commandsFor digest = []) (hanswers : start.answers = [])
    (sched : List (τ × RoutingInput)) :
    (((routingPool calls start).run sched).state.commandsFor digest).length ≤ 1 ↔
      ∀ a b, (digest, a) ∈ ((routingPool calls start).run sched).state.answers →
        (digest, b) ∈ ((routingPool calls start).run sched).state.answers → a = b :=
  (routingPool_routedBy hnone hanswers sched).length_le_one_iff

end runs

/-- A reply with the correlation id 50. -/
def recruiterReplied : DeliveredEvent where
  type := "recruiter.replied"
  source := "inbox"
  eventId := 90
  correlationId := some 50
  digest := "reply-1"
  fields := []

/-- Workflow 3 waits on it. -/
def awaitingReply : RoutingState where
  table := ⟨[], 0, []⟩
  threads := [⟨3, "job_search:3", "ada", some 50, [some "interrupt-1"]⟩]
  nextWorkflow := 4
  answers := []

/-- Two deliveries, and a worker that runs one super-step. -/
def replyCalls : Fin 3 → RoutingCall
  | 0 => .deliver recruiterReplied none
  | 1 => .work 1
  | 2 => .deliver recruiterReplied none

/-- A step by which the graph leaves nothing to wait for, and the command is done. -/
def onward : RoutingInput := ⟨0, [], .done⟩

/-- Both deliveries, one after the other, with the worker's run between them. -/
def redelivered : List (Fin 3 × RoutingInput) :=
  List.replicate 7 (0, onward) ++ List.replicate 3 (1, onward) ++ List.replicate 7 (2, onward)

/-- With nothing waiting, two deliveries queue one command. -/
theorem routed_once_iff_unawaited :
    (((routingPool replyCalls ⟨⟨[], 0, []⟩, [], 4, []⟩).run redelivered).state.commandsFor
      "reply-1").length ≤ 1 := by
  refine (routed_once_iff rfl rfl redelivered).mpr fun a b ha hb => ?_
  have hanswers : ∀ answer ∈ ((routingPool replyCalls ⟨⟨[], 0, []⟩, [], 4, []⟩).run
      redelivered).state.answers, answer.2 = none := by
    decide +kernel
  exact (hanswers _ ha).trans (hanswers _ hb).symm

/-- The first delivery resumes what waits, the worker runs it, and the second delivery starts a run
for the same event. -/
theorem resumed_event_starts_run :
    ¬ ∀ (calls : Fin 3 → RoutingCall) (start : RoutingState) (digest : String)
        (sched : List (Fin 3 × RoutingInput)),
      start.commandsFor digest = [] → start.answers = [] →
      (((routingPool calls start).run sched).state.commandsFor digest).length ≤ 1 := by
  intro h
  have hqueued : ((((routingPool replyCalls awaitingReply).run redelivered).state.commandsFor
      "reply-1").map (·.command.kind)) = [.resume, .start] := by
    decide +kernel
  have hlength := h replyCalls awaitingReply "reply-1" redelivered rfl rfl
  rw [← List.length_map (·.command.kind), hqueued] at hlength
  exact absurd hlength (by decide)

end PersonalOS
