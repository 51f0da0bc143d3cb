import PersonalOS.UniqueRows
import PersonalOS.CheckpointSaver

/-! # The registry of workflow threads

`WorkflowThreadRegistry` of `personalos.persistence.checkpointer`: any number of processes, each with a
registry of its own, bind threads to workflow runs and look the bindings up.

* **Binding.** `register` looks for the run of a thread, else finds or creates the workflow and inserts a
  run, and takes the winner's when another process was faster.
* **Memory.** A registry keeps every binding it came across and answers from memory.
* **Processes.** In any interleaving a thread has one run for good, and every answer names that run, from
  memory or not (`threads_bound_once`). -/

namespace PersonalOS

open Concurrent Concurrent.RowTable

structure WorkflowRow where
  id : UUID
  name : String
deriving DecidableEq, Repr

/-- The tables `workflows` and `workflow_runs`. -/
structure RegistryTables where
  workflows : List WorkflowRow
  runs : List WorkflowRunRow

/-- A binding as the registry hands it out. -/
structure BoundThread where
  run : WorkflowRunRow
  workflowName : Option String
deriving DecidableEq, Repr

/-- What a transaction is handed: the ids of rows that are added, and whether the database fails, before or
after the commit. -/
structure RegistryInput where
  id : UUID
  failure : Option (String × Bool)

inductive RegistryError where
  | database (error : String)
  /-- The workflow does not exist. -/
  | notFound (workflowId : UUID)
  | unregistered (message : String)
  /-- A unique violation without a row. -/
  | integrity
deriving DecidableEq, Repr

structure RegisterRequest where
  threadId : String
  workflowName : String
  workflowId : Option UUID
deriving DecidableEq, Repr

/-- A call of a registry. -/
inductive RegistryCall where
  | register (request : RegisterRequest)
  | resolve (threadId : String)
  | require (threadId : String)
deriving DecidableEq, Repr

def RegistryCall.threadId : RegistryCall → String
  | .register request => request.threadId
  | .resolve threadId => threadId
  | .require threadId => threadId

namespace WorkflowThreadRegistry

abbrev RegistryProgram (α : Type) := Prog RegistryInput RegistryTables RegistryError α

def runs : RowTable RegistryTables WorkflowRunRow String where
  rows := (·.runs)
  key := (·.threadId)
  add run tables := { tables with runs := tables.runs ++ [run] }
  rows_add _ _ := rfl
  keeps tables tables' := tables.workflows <+: tables'.workflows
  keeps_refl _ := List.prefix_rfl
  keeps_trans _ _ _ := List.IsPrefix.trans
  keeps_add _ _ := List.prefix_rfl

def failure (i : RegistryInput) : Option (RegistryError × Bool) :=
  i.failure.map fun (error, committed) => (.database error, committed)

/-- The bindings a registry remembers. -/
abbrev Memory := List BoundThread

def remember (bound : BoundThread) (memory : Memory) : BoundThread × Memory :=
  (bound, Keyed.upsert (·.run.threadId) bound memory)

/-- Get or create the workflow a new run hangs off. -/
def workflow (request : RegisterRequest) : RegistryProgram WorkflowRow := do
  match request.workflowId with
  | some id =>
      match ← transaction failure fun _ tables => (Keyed.lookup (·.id) id tables.workflows, tables) with
      | some workflow => return workflow
      | none => .raise (.notFound id)
  | none =>
      match ← transaction failure fun _ tables =>
        (Keyed.lookup (·.name) request.workflowName tables.workflows, tables) with
      | some workflow => return workflow
      | none =>
          transaction failure fun i tables =>
            let workflow : WorkflowRow := { id := i.id, name := request.workflowName }
            (workflow, { tables with workflows := tables.workflows ++ [workflow] })

/-- Bind a thread to a workflow run, creating either if needed. -/
def register (request : RegisterRequest) (memory : Memory) : RegistryProgram (BoundThread × Memory) := do
  match ← runs.find failure request.threadId with
  | some existing => return remember ⟨existing, some request.workflowName⟩ memory
  | none =>
      let workflow ← workflow request
      match ← runs.insert failure fun i =>
        { threadId := request.threadId, workflowId := workflow.id, workflowRunId := i.id } with
      | some run => return remember ⟨run, some workflow.name⟩ memory
      | none =>
          match ← runs.find failure request.threadId with
          | some winner => return remember ⟨winner, some request.workflowName⟩ memory
          | none => .raise .integrity

/-- The binding of a thread, if it was ever registered. -/
def resolve (threadId : String) (memory : Memory) : RegistryProgram (Option BoundThread × Memory) := do
  match Keyed.lookup (·.run.threadId) threadId memory with
  | some cached => return (some cached, memory)
  | none =>
      match ← runs.find failure threadId with
      | none => return (none, memory)
      | some run =>
          let workflow ← transaction failure fun _ tables =>
            (Keyed.lookup (·.id) run.workflowId tables.workflows, tables)
          let (bound, memory) := remember ⟨run, workflow.map (·.name)⟩ memory
          return (some bound, memory)

/-- Resolve a thread, or raise. -/
def require (threadId : String) (memory : Memory) : RegistryProgram (BoundThread × Memory) := do
  match ← resolve threadId memory with
  | (some bound, memory) => return (bound, memory)
  | (none, _) => .raise (.unregistered (CheckpointTables.unregisteredMessage threadId))

def perform (memory : Memory) : RegistryCall → RegistryProgram (Option BoundThread × Memory)
  | .register request => do
      let (bound, memory) ← register request memory
      return (some bound, memory)
  | .resolve threadId => resolve threadId memory
  | .require threadId => do
      let (bound, memory) ← require threadId memory
      return (some bound, memory)

/-- One call after the other; what a call raises ends that call. -/
def serve (memory : Memory) : List RegistryCall → RegistryProgram (List (Except RegistryError (Option BoundThread)))
  | [] => return []
  | call :: rest => do
      match ← (perform memory call).attempt with
      | .ok (bound, memory) =>
          let answers ← serve memory rest
          return .ok bound :: answers
      | .error error =>
          let answers ← serve memory rest
          return .error error :: answers

/-! ### One registry among others -/

section calls

variable {τ : Type} [DecidableEq τ] {calls : τ → List RegistryCall} {t : τ}
variable {x x' : RegistryTables × List (τ × String)} {α : Type}

/-- The call named the workflow: by its id, or by its name if it gave no id. -/
def Names (request : RegisterRequest) (workflow : WorkflowRow) : Prop :=
  (∀ id, request.workflowId = some id → workflow.id = id) ∧
    (request.workflowId = none → workflow.name = request.workflowName)

/-- The runs that a process may add: of a workflow that the call for it named. -/
def Wanted (calls : τ → List RegistryCall) (t : τ) (tables : RegistryTables) (run : WorkflowRunRow) : Prop :=
  ∃ request, .register request ∈ calls t ∧ run.threadId = request.threadId ∧
    ∃ workflow ∈ tables.workflows, workflow.id = run.workflowId ∧ Names request workflow

/-- The run that a thread is bound to. -/
def boundRun (threadId : String) (tables : RegistryTables) : Option WorkflowRunRow :=
  Keyed.lookup (·.threadId) threadId tables.runs

/-- What a registry remembers is so. -/
def Remembers (memory : Memory) (x : RegistryTables × List (τ × String)) : Prop :=
  ∀ bound ∈ memory, boundRun bound.run.threadId x.1 = some bound.run

/-- The errors of a call: the thread is said to be unbound only if it was when the call began. -/
def Refused (threadId : String) (x : RegistryTables × List (τ × String)) (error : RegistryError) : Prop :=
  error ≠ .integrity ∧ ∀ message, error = .unregistered message → boundRun threadId x.1 = none

/-- What a call comes to: a thread is said to be unbound only if it was when the call began. -/
structure Performed (threadId : String) (x : RegistryTables × List (τ × String))
    (answer : Option BoundThread × Memory) (x' : RegistryTables × List (τ × String)) : Prop where
  remembers : Remembers answer.2 x'
  bound : ∀ bound, answer.1 = some bound → bound.run.threadId = threadId ∧
    boundRun threadId x'.1 = some bound.run
  unbound : answer.1 = none → boundRun threadId x.1 = none

theorem boundRun_leaves {threadId : String} {run : WorkflowRunRow} (h : runs.Leaves t x x')
    (hrun : boundRun threadId x.1 = some run) : boundRun threadId x'.1 = some run :=
  lookup_of_isPrefix h.rows hrun

omit [DecidableEq τ] in
theorem unbound_before {tables tables' : RegistryTables} (h : tables.runs <+: tables'.runs) {threadId : String}
    (hnone : boundRun threadId tables' = none) : boundRun threadId tables = none := by
  cases hrun : boundRun threadId tables with
  | none => rfl
  | some run => exact absurd ((lookup_of_isPrefix h hrun).symm.trans hnone) (Option.some_ne_none run)

theorem Remembers.leaves {memory : Memory} (h : Remembers memory x) (hr : runs.Leaves t x x') :
    Remembers memory x' :=
  fun bound hbound => boundRun_leaves hr (h bound hbound)

theorem Performed.leaves {threadId : String} {x₀ : RegistryTables × List (τ × String)}
    {answer : Option BoundThread × Memory} (h : Performed threadId x₀ answer x) (hr : runs.Leaves t x x') :
    Performed threadId x₀ answer x' where
  remembers := h.remembers.leaves hr
  bound := fun bound hbound => ⟨(h.bound bound hbound).1, boundRun_leaves hr (h.bound bound hbound).2⟩
  unbound := h.unbound

omit [DecidableEq τ] in
/-- Answering with a run that is there, and remembering it. -/
theorem performed_remember {threadId : String} {memory : Memory} {run : WorkflowRunRow} {name : Option String}
    {x₀ : RegistryTables × List (τ × String)} (hmemory : Remembers memory x)
    (hrun : boundRun threadId x.1 = some run) :
    Performed threadId x₀ (some (remember ⟨run, name⟩ memory).1, (remember ⟨run, name⟩ memory).2) x := by
  have hthread : run.threadId = threadId := (Keyed.lookup_eq_some hrun).2
  refine ⟨fun bound hbound => ?_, fun bound hbound => ?_, fun hnone => ?_⟩
  · rcases Keyed.mem_upsert hbound with rfl | ⟨hold, -⟩
    · show boundRun run.threadId x.1 = some run
      rw [hthread, hrun]
    · exact hmemory bound hold
  · obtain rfl := Option.some.inj hbound
    exact ⟨hthread, hrun⟩
  · exact absurd hnone (Option.some_ne_none _)

omit [DecidableEq τ] in
theorem database_refused {threadId : String} {x₀ : RegistryTables × List (τ × String)} :
    ∀ i e committed, failure i = some (e, committed) → ∀ _ : RegistryTables × List (τ × String),
      Refused threadId x₀ e := by
  intro i e committed hi _
  obtain ⟨⟨error, committed'⟩, -, hpair⟩ := Option.map_eq_some_iff.mp hi
  obtain rfl := (Prod.mk.inj hpair).1
  exact ⟨fun h => (by cases h), fun _ h => (by cases h)⟩

variable {E : RegistryError → RegistryTables × List (τ × String) → Prop}
variable {Q : α → RegistryTables × List (τ × String) → Prop}

/-- The workflow that is found or created is one that the call named. -/
theorem wp_workflow (hE : ∀ i e committed, failure i = some (e, committed) → ∀ x, E e x)
    (hmissing : ∀ id x, E (.notFound id) x) {request : RegisterRequest}
    {k : WorkflowRow → RegistryProgram α}
    (h : ∀ workflow x', runs.Leaves t x x' → workflow ∈ x'.1.workflows → Names request workflow →
      ((k workflow).noting (runs.note t)).wp (runs.contract (Wanted calls) t) Q E x') :
    ((workflow request >>= k).noting (runs.note t)).wp (runs.contract (Wanted calls) t) Q E x := by
  unfold workflow
  cases hid : request.workflowId with
  | some id =>
      dsimp only
      rw [Prog.bind_assoc]
      refine wp_keep hE (fun _ _ => ⟨rfl, List.prefix_rfl⟩) fun x₁ hr₁ _ => ?_
      dsimp only
      cases hworkflow : Keyed.lookup (·.id) id x₁.1.workflows with
      | none => exact fun x₂ _ => hmissing id x₂
      | some workflow =>
          obtain ⟨hmem, hfound⟩ := Keyed.lookup_eq_some hworkflow
          refine h workflow x₁ hr₁ hmem ⟨fun id' hid' => ?_, fun hnone => ?_⟩
          · rw [← Option.some.inj (hid.symm.trans hid')]
            exact hfound
          · exact absurd (hid.symm.trans hnone) (Option.some_ne_none id)
  | none =>
      have hnamed : ∀ workflow : WorkflowRow, workflow.name = request.workflowName → Names request workflow :=
        fun _ hname => ⟨fun id hid' => absurd (hid.symm.trans hid') (Option.some_ne_none id).symm, fun _ => hname⟩
      dsimp only
      rw [Prog.bind_assoc]
      refine wp_keep hE (fun _ _ => ⟨rfl, List.prefix_rfl⟩) fun x₁ hr₁ _ => ?_
      dsimp only
      cases hworkflow : Keyed.lookup (·.name) request.workflowName x₁.1.workflows with
      | some workflow =>
          obtain ⟨hmem, hfound⟩ := Keyed.lookup_eq_some hworkflow
          exact h workflow x₁ hr₁ hmem (hnamed workflow hfound)
      | none =>
          dsimp only
          refine wp_keep hE (fun _ _ => ⟨rfl, List.prefix_append _ _⟩) fun x₂ hr₂ i => ?_
          exact h _ _ (hr₁.trans ⟨hr₂.rows, hr₂.keeps.trans (List.prefix_append _ _), hr₂.mine⟩)
            (List.mem_append_right _ List.mem_cons_self) (hnamed _ rfl)

theorem register_wp {request : RegisterRequest} (hrequest : .register request ∈ calls t) {memory : Memory}
    (hmemory : Remembers memory x) :
    ((register request memory).noting (runs.note t)).wp (runs.contract (Wanted calls) t)
      (fun answer => Performed request.threadId x (some answer.1, answer.2))
      (fun error _ => Refused request.threadId x error) x := by
  refine wp_find database_refused fun x₁ hr₁ => ?_
  cases hfirst : Keyed.lookup runs.key request.threadId (runs.rows x₁.1) with
  | some existing =>
      exact fun x₂ hr₂ => (performed_remember (hmemory.leaves hr₁) hfirst).leaves hr₂
  | none =>
      refine wp_workflow database_refused (fun id x => ⟨fun h => (by cases h), fun _ h => (by cases h)⟩) ?_
      intro workflow x₂ hr₂ hmem hnames
      have hmemory₂ := (hmemory.leaves hr₁).leaves hr₂
      refine wp_insert database_refused
        (fun x₃ hr₃ i => ⟨request, hrequest, rfl, workflow, hr₃.keeps.subset hmem, rfl, hnames⟩)
        (fun x₃ hr₃ i hnone => ?_) fun x₃ hr₃ i winner hwinner => ?_
      · intro x₄ hr₄
        refine Performed.leaves (performed_remember ?_ ?_) hr₄
        · intro bound hbound
          exact lookup_of_isPrefix (List.prefix_append _ _) ((hmemory₂.leaves hr₃) bound hbound)
        · exact (Keyed.lookup_concat hnone).trans (if_pos rfl)
      · refine wp_find database_refused fun x₄ hr₄ => ?_
        have hthere : Keyed.lookup runs.key request.threadId (runs.rows x₄.1) = some winner :=
          lookup_of_isPrefix hr₄.rows hwinner
        rw [hthere]
        exact fun x₅ hr₅ =>
          (performed_remember ((hmemory₂.leaves hr₃).leaves hr₄) hthere).leaves hr₅

theorem resolve_wp {threadId : String} {memory : Memory} (hmemory : Remembers memory x) :
    ((resolve threadId memory).noting (runs.note t)).wp (runs.contract (Wanted calls) t)
      (Performed threadId x) (fun error _ => Refused threadId x error) x := by
  unfold resolve
  cases hcached : Keyed.lookup (·.run.threadId) threadId memory with
  | some cached =>
      intro x₁ hr₁
      obtain ⟨hmem, hthread⟩ := Keyed.lookup_eq_some hcached
      refine ⟨hmemory.leaves hr₁, fun bound hbound => ?_, fun hnone => absurd hnone (Option.some_ne_none _)⟩
      obtain rfl := Option.some.inj hbound
      exact ⟨hthread, hthread ▸ hmemory.leaves hr₁ cached hmem⟩
  | none =>
      refine wp_find database_refused fun x₁ hr₁ => ?_
      cases hrun : Keyed.lookup runs.key threadId (runs.rows x₁.1) with
      | none =>
          intro x₂ hr₂
          exact ⟨(hmemory.leaves hr₁).leaves hr₂, fun bound hbound => absurd hbound (Option.some_ne_none bound).symm,
            fun _ => unbound_before hr₁.rows hrun⟩
      | some run =>
          refine wp_keep database_refused (fun _ _ => ⟨rfl, List.prefix_rfl⟩) fun x₂ hr₂ _ x₃ hr₃ => ?_
          have hthere : boundRun threadId x₂.1 = some run := boundRun_leaves hr₂ hrun
          exact (performed_remember ((hmemory.leaves hr₁).leaves hr₂) hthere).leaves hr₃

theorem require_wp {threadId : String} {memory : Memory} (hmemory : Remembers memory x) :
    ((require threadId memory).noting (runs.note t)).wp (runs.contract (Wanted calls) t)
      (fun answer => Performed threadId x (some answer.1, answer.2))
      (fun error _ => Refused threadId x error) x := by
  unfold require
  rw [noting_bind]
  refine Prog.wp_bind (Prog.wp_mono (resolve_wp hmemory) (fun answer x₁ h₁ => ?_) fun _ _ h => h)
  obtain ⟨bound, memory'⟩ := answer
  cases bound with
  | none => exact fun x₂ _ => ⟨fun h => (by cases h), fun _ _ => h₁.unbound rfl⟩
  | some bound => exact fun x₂ hr₂ => h₁.leaves hr₂

theorem perform_wp {call : RegistryCall} (hcall : call ∈ calls t) {memory : Memory}
    (hmemory : Remembers memory x) :
    ((perform memory call).noting (runs.note t)).wp (runs.contract (Wanted calls) t)
      (Performed call.threadId x) (fun error _ => Refused call.threadId x error) x := by
  cases call with
  | register request =>
      show ((register request memory >>= fun answer => Prog.ret (some answer.1, answer.2)).noting
        (runs.note t)).wp _ _ _ x
      rw [noting_bind]
      refine Prog.wp_bind (Prog.wp_mono (register_wp hcall hmemory) (fun answer x₁ h₁ => ?_) fun _ _ h => h)
      exact fun x₂ hr₂ => h₁.leaves hr₂
  | resolve threadId => exact resolve_wp hmemory
  | require threadId =>
      show ((require threadId memory >>= fun answer => Prog.ret (some answer.1, answer.2)).noting
        (runs.note t)).wp _ _ _ x
      rw [noting_bind]
      refine Prog.wp_bind (Prog.wp_mono (require_wp hmemory) (fun answer x₁ h₁ => ?_) fun _ _ h => h)
      exact fun x₂ hr₂ => h₁.leaves hr₂

/-- The answer of a call. -/
abbrev RegistryAnswer := Except RegistryError (Option BoundThread)

/-- The answer says that the thread is not bound. -/
def SaysUnbound (answer : RegistryAnswer) : Prop :=
  answer = .ok none ∨ ∃ message, answer = .error (.unregistered message)

/-- An answer names the run that the thread is bound to. -/
def Truthful (tables : RegistryTables) (call : RegistryCall) (answer : RegistryAnswer) : Prop :=
  answer ≠ .error .integrity ∧ ∀ bound, answer = .ok (some bound) →
    bound.run.threadId = call.threadId ∧ boundRun call.threadId tables = some bound.run

/-- The answers of a registry: they name the runs of their threads, and a thread that was bound before is
not said to be unbound. -/
structure Served (x₀ : RegistryTables × List (τ × String)) (todo : List RegistryCall)
    (answers : List RegistryAnswer) (x : RegistryTables × List (τ × String)) : Prop where
  truthful : List.Forall₂ (Truthful x.1) todo answers
  before : ∀ pair ∈ todo.zip answers, SaysUnbound pair.2 → boundRun pair.1.threadId x₀.1 = none
  earlier : (todo.zip answers).Pairwise fun pair pair' => (∃ bound, pair.2 = .ok (some bound)) →
    pair'.1.threadId = pair.1.threadId → ¬ SaysUnbound pair'.2

theorem Truthful.leaves {call : RegistryCall} {answer : RegistryAnswer} (h : Truthful x.1 call answer)
    (hr : runs.Leaves t x x') : Truthful x'.1 call answer :=
  ⟨h.1, fun bound hbound => ⟨(h.2 bound hbound).1, boundRun_leaves hr (h.2 bound hbound).2⟩⟩

theorem Served.leaves {todo : List RegistryCall} {answers : List RegistryAnswer}
    {x₀ : RegistryTables × List (τ × String)} (h : Served x₀ todo answers x) (hr : runs.Leaves t x x') :
    Served x₀ todo answers x' :=
  ⟨h.truthful.imp fun _ _ htrue => htrue.leaves hr, h.before, h.earlier⟩

omit [DecidableEq τ] in
/-- A first answer, given before the rest was served. -/
theorem Served.cons {call : RegistryCall} {answer : RegistryAnswer} {todo : List RegistryCall}
    {answers : List RegistryAnswer} {x₀ x₁ x₂ : RegistryTables × List (τ × String)}
    (h : Served x₁ todo answers x₂) (hanswer : Truthful x₂.1 call answer)
    (hbound : ∀ bound, answer = .ok (some bound) → boundRun call.threadId x₁.1 = some bound.run)
    (hbefore : SaysUnbound answer → boundRun call.threadId x₀.1 = none)
    (hkeeps : ∀ threadId, boundRun threadId x₁.1 = none → boundRun threadId x₀.1 = none) :
    Served x₀ (call :: todo) (answer :: answers) x₂ where
  truthful := .cons hanswer h.truthful
  before := by
    intro pair hpair hunbound
    rcases List.mem_cons.mp hpair with rfl | hpair
    · exact hbefore hunbound
    · exact hkeeps _ (h.before pair hpair hunbound)
  earlier := by
    refine List.pairwise_cons.mpr ⟨fun pair hpair hfound hthread hunbound => ?_, h.earlier⟩
    obtain ⟨bound, hbound'⟩ := hfound
    have hnone := h.before pair hpair hunbound
    rw [hthread] at hnone
    exact absurd ((hbound bound hbound').symm.trans hnone) (Option.some_ne_none bound.run)

theorem serve_wp {todo : List RegistryCall} (htodo : ∀ call ∈ todo, call ∈ calls t) {memory : Memory}
    (hmemory : Remembers memory x) :
    ((serve memory todo).noting (runs.note t)).wp (runs.contract (Wanted calls) t) (Served x todo)
      (fun _ _ => False) x := by
  induction todo generalizing memory x with
  | nil => exact fun x' _ => ⟨.nil, fun _ h => absurd h List.not_mem_nil, .nil⟩
  | cons call rest ih =>
      have hrest : ∀ call ∈ rest, call ∈ calls t := fun call h => htodo call (List.mem_cons_of_mem _ h)
      -- what is left to do after an answer, which memory it leaves aside
      have hgo : ∀ x₁ : RegistryTables × List (τ × String), x.1.runs <+: x₁.1.runs → ∀ memory',
          Remembers memory' x₁ → ∀ answer, Truthful x₁.1 call answer →
          (SaysUnbound answer → boundRun call.threadId x.1 = none) →
          ((serve memory' rest >>= fun answers => Prog.ret (answer :: answers)).noting (runs.note t)).wp
            (runs.contract (Wanted calls) t) (Served x (call :: rest)) (fun _ _ => False) x₁ := by
        intro x₁ hgrown memory' hmemory' answer htrue hbefore
        rw [noting_bind]
        refine Prog.wp_bind (Prog.wp_mono (wp_grows (ih hrest hmemory') List.prefix_rfl)
          (fun answers x₂ h₂ => ?_) fun _ _ h => h.1.elim)
        obtain ⟨hserved, hgrown₂⟩ := h₂
        intro x₃ hr₃
        refine Served.cons (hserved.leaves hr₃) ?_ (fun bound hbound => (htrue.2 bound hbound).2) hbefore
          fun _ => unbound_before hgrown
        refine ⟨htrue.1, fun bound hbound => ⟨(htrue.2 bound hbound).1, ?_⟩⟩
        exact lookup_of_isPrefix (hgrown₂.trans hr₃.rows) (htrue.2 bound hbound).2
      unfold serve
      rw [noting_bind, noting_attempt]
      refine Prog.wp_bind (Prog.wp_attempt (Prog.wp_mono
        (wp_grows (perform_wp (htodo call List.mem_cons_self) hmemory) List.prefix_rfl)
        (fun answer x₁ h₁ => ?_) fun error x₁ h₁ => ?_))
      · obtain ⟨⟨hremembers, hbound, hunbound⟩, hgrown⟩ := h₁
        refine hgo x₁ hgrown answer.2 hremembers (.ok answer.1) ⟨fun h => (by cases h), ?_⟩ ?_
        · exact fun bound h => hbound bound (Except.ok.inj h)
        · rintro (h | ⟨_, h⟩)
          · exact hunbound (Except.ok.inj h)
          · cases h
      · obtain ⟨⟨hintegrity, hunbound⟩, hgrown⟩ := h₁
        refine hgo x₁ hgrown memory ?_ (.error error) ⟨fun h => hintegrity (Except.error.inj h), ?_⟩ ?_
        · exact fun bound h => lookup_of_isPrefix hgrown (hmemory bound h)
        · intro bound h
          cases h
        · rintro (h | ⟨message, h⟩)
          · cases h
          · exact hunbound message (Except.error.inj h)

end calls

/-- The tables that registries begin with. -/
structure BoundTables extends RegistryTables where
  unique : (runs.map (·.threadId)).Nodup

/-- Registries that serve their calls on the same tables. -/
def registries {τ : Type} (calls : τ → List RegistryCall) (tables : BoundTables) :
    Pool τ RegistryInput RegistryTables RegistryError (List RegistryAnswer) :=
  ⟨fun t => serve [] (calls t), tables.toRegistryTables⟩

theorem Wanted.mono {τ : Type} {calls : τ → List RegistryCall} {t : τ} {tables tables' : RegistryTables}
    {run : WorkflowRunRow} (h : Wanted calls t tables run) (hkeeps : runs.keeps tables tables') :
    Wanted calls t tables' run := by
  obtain ⟨request, hrequest, hthread, workflow, hmem, hid, hnames⟩ := h
  exact ⟨request, hrequest, hthread, workflow, hkeeps.subset hmem, hid, hnames⟩

/-- However registries are interleaved, and whichever of them crash or lose the database: a thread has one run,
which never changes and was added for a call that asked for it, of the workflow it named.  Every answer of a
registry names that run, from memory or not, and a thread that was bound before the registry began, or in
an answer of it, is not said to be unbound afterwards. -/
theorem threads_bound_once {τ : Type} [DecidableEq τ] (calls : τ → List RegistryCall) (tables : BoundTables)
    (sched : List (τ × RegistryInput)) :
    ∃ tables', ((registries calls tables).run sched).state = tables' ∧
      (tables'.runs.map (·.threadId)).Nodup ∧
      (∃ more, tables'.runs = tables.runs ++ more ∧ ∀ run ∈ more, ∃ t, Wanted calls t tables' run) ∧
      (∀ t answers, ((registries calls tables).run sched).procs t = .ret answers →
        List.Forall₂ (Truthful tables') (calls t) answers ∧
        (∀ pair ∈ (calls t).zip answers, SaysUnbound pair.2 →
          boundRun pair.1.threadId tables.toRegistryTables = none) ∧
        ((calls t).zip answers).Pairwise fun pair pair' => (∃ bound, pair.2 = .ok (some bound)) →
          pair'.1.threadId = pair.1.threadId → ¬ SaysUnbound pair'.2) ∧
      ∀ t error, ((registries calls tables).run sched).procs t ≠ .raise error := by
  have hserve : ∀ t, ((serve [] (calls t)).noting (runs.note t)).wp (runs.contract (Wanted calls) t)
      (Served (tables.toRegistryTables, []) (calls t)) (fun _ _ => False) (tables.toRegistryTables, []) :=
    fun t => serve_wp (fun _ h => h) fun _ h => absurd h List.not_mem_nil
  obtain ⟨notes, htally, hret, hraise⟩ := run_tallied hserve tables.unique sched
  refine ⟨_, rfl, htally.nodup, ?_, fun t answers hanswers => ?_, fun t error h => hraise t error h⟩
  · obtain ⟨more, hrows, -, hfrom⟩ := htally.added
    refine ⟨more, hrows, fun run hrun => ?_⟩
    obtain ⟨t, -, _, -, tables₁, -, hkeeps, ht⟩ := Tally.mem_added hfrom hrun
    exact ⟨t, ht.mono hkeeps⟩
  · exact ⟨(hret t answers hanswers).truthful, (hret t answers hanswers).before,
      (hret t answers hanswers).earlier⟩

end WorkflowThreadRegistry

end PersonalOS
