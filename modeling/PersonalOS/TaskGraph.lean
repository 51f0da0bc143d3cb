import PersonalOS.Dependencies
import PersonalOS.Keyed
import PersonalOS.Texts
import Mathlib.Data.Finset.Dedup
import Mathlib.Data.List.Sort
import Mathlib.Data.String.Basic

/-! # Task graphs

`personalos.domain.tasks`: a bounded plan of tasks that depend on each other.

* **Order.** `topologicalOrder` lists, as long as tasks remain, those that wait for nothing, in the
  order of their ids; where all that remain wait for something, there is a cycle.
* **Runs.** `Progress` relates what remains to what is listed; a round keeps it (`Progress.advance`), and
  at the end of the run all tasks are listed or a cycle is found (`Progress.outcome`).
* **Graphs.** A `TaskDag` is what its validator accepts: it always has an order. -/

namespace PersonalOS.Tasks

open Dependencies

/-- Hard cap on the number of tasks in a single graph. -/
def maxTasksPerDag : ℕ := 12

/-- One bounded unit of work in a plan. -/
structure TaskNode where
  id : String
  name : String
  dependsOn : List String
  id_given : strip id ≠ ""
  name_given : strip name ≠ ""

/-- What a graph is refused for. -/
inductive InvalidTaskDag where
  | noTasks
  | tooManyTasks (count : ℕ)
  | repeatedIds
  | unknownTasks (id : String) (unknown : List String)
  | cycle (ids : List String)
deriving DecidableEq, Repr

/-- The words of a refusal; `printed` is how a list of texts is printed. -/
def InvalidTaskDag.message (printed : List String → String) : InvalidTaskDag → String
  | noTasks => "a task DAG must contain at least one task"
  | tooManyTasks count => s!"task DAG has {count} tasks, exceeding the bound of {maxTasksPerDag}"
  | repeatedIds => "task ids must be unique"
  | unknownTasks id unknown => s!"task '{id}' depends on unknown task(s): {printed unknown}"
  | cycle ids => s!"task DAG has a dependency cycle among: {printed ids}"

/-! ### The order of the tasks -/

/-- `sorted`. -/
def sorted (ids : List String) : List String := ids.insertionSort (· ≤ ·)

/-- A task that is not yet listed, and what it still waits for. -/
structure Waiting where
  id : String
  deps : Finset String
deriving DecidableEq

def waitingOf (task : TaskNode) : Waiting := ⟨task.id, task.dependsOn.toFinset⟩

/-- The ids of the tasks that wait for nothing. -/
def readyIds (remaining : List Waiting) : List String :=
  sorted ((remaining.filter fun task => decide (task.deps = ∅)).map Waiting.id)

/-- What remains once these tasks are listed. -/
def advance (ready : List String) (remaining : List Waiting) : List Waiting :=
  (remaining.filter fun task => decide (task.id ∉ ready)).map fun task =>
    { task with deps := task.deps \ ready.toFinset }

theorem mem_readyIds {remaining : List Waiting} {id : String} :
    id ∈ readyIds remaining ↔ ∃ task ∈ remaining, task.deps = ∅ ∧ task.id = id := by
  simp [readyIds, sorted, and_assoc]

theorem length_advance_lt {remaining : List Waiting} (h : readyIds remaining ≠ []) :
    (advance (readyIds remaining) remaining).length < remaining.length := by
  obtain ⟨id, hid⟩ := List.exists_mem_of_ne_nil _ h
  obtain ⟨task, htask, -, rfl⟩ := mem_readyIds.mp hid
  rw [advance, List.length_map]
  exact List.length_filter_lt_length_iff_exists.mpr ⟨task, htask, by simpa using hid⟩

/-- The loop of `_topological_order`. -/
def topologicalFrom (remaining : List Waiting) (ordered : List String) :
    Except InvalidTaskDag (List String) :=
  if remaining = [] then .ok ordered
  else if readyIds remaining = [] then .error (.cycle (sorted (remaining.map Waiting.id)))
  else
    topologicalFrom (advance (readyIds remaining) remaining) (ordered ++ readyIds remaining)
termination_by remaining.length
decreasing_by exact length_advance_lt ‹_›

/-- `_topological_order`: the ids with every dependency before its dependents. -/
def topologicalOrder (tasks : List TaskNode) : Except InvalidTaskDag (List String) :=
  topologicalFrom (Keyed.upsertAll Waiting.id (tasks.map waitingOf) []) []

/-- The task with the one id depends on the other. -/
def DependsOn (tasks : List TaskNode) (id dep : String) : Prop :=
  ∃ task ∈ tasks, task.id = id ∧ dep ∈ task.dependsOn

/-! ### What a round does -/

section rounds

variable {r : String → String → Prop} {ids ordered : List String} {remaining : List Waiting}

/-- What is listed and what remains, of tasks that depend on each other. -/
structure Progress (r : String → String → Prop) (ids : List String) (remaining : List Waiting)
    (ordered : List String) : Prop where
  all : (ordered ++ remaining.map Waiting.id).Perm ids
  waits : ∀ task ∈ remaining, ∀ dep, dep ∈ task.deps ↔ r task.id dep ∧ dep ∉ ordered
  first : DepsFirst r ordered

theorem sorted_perm (l : List String) : (sorted l).Perm l := List.perm_insertionSort _ l

theorem sorted_congr {l l' : List String} (h : l.Perm l') : sorted l = sorted l' := by
  have hperm : (sorted l).Perm (sorted l') := (sorted_perm l).trans (h.trans (sorted_perm l').symm)
  exact hperm.eq_of_pairwise' (List.pairwise_insertionSort _ l) (List.pairwise_insertionSort _ l')

theorem perm_advance (hids : (remaining.map Waiting.id).Nodup) :
    (readyIds remaining ++ (advance (readyIds remaining) remaining).map Waiting.id).Perm
      (remaining.map Waiting.id) := by
  have hrest : (advance (readyIds remaining) remaining).map Waiting.id =
      (remaining.filter fun task => !decide (task.deps = ∅)).map Waiting.id := by
    rw [advance, List.map_map]
    refine congrArg (List.map Waiting.id) (List.filter_congr fun task htask => ?_)
    rw [← decide_not, decide_eq_decide, mem_readyIds, not_iff_not]
    constructor
    · rintro ⟨other, hother, hready, heq⟩
      rwa [← List.inj_on_of_nodup_map hids hother htask heq]
    · exact fun hready => ⟨task, htask, hready, rfl⟩
  rw [hrest]
  refine ((sorted_perm _).append_right _).trans ?_
  rw [← List.map_append]
  exact (List.filter_append_perm _ remaining).map Waiting.id

/-- **A round** keeps what is listed and what remains in order. -/
theorem Progress.advance (h : Progress r ids remaining ordered) (hids : ids.Nodup) :
    Progress r ids (advance (readyIds remaining) remaining) (ordered ++ readyIds remaining) where
  all := by
    have hremaining : (remaining.map Waiting.id).Nodup :=
      (h.all.nodup_iff.mpr hids).sublist (List.sublist_append_right _ _)
    rw [List.append_assoc]
    exact ((perm_advance hremaining).append_left ordered).trans h.all
  waits := by
    intro task htask dep
    obtain ⟨before, hbefore, rfl⟩ := List.mem_map.mp htask
    rw [Finset.mem_sdiff, h.waits before (List.mem_filter.mp hbefore).1, List.mem_toFinset,
      List.mem_append, not_or, and_assoc]
  first := by
    refine h.first.append fun id hid dep hdep => ?_
    obtain ⟨task, htask, hready, rfl⟩ := mem_readyIds.mp hid
    by_contra hmissing
    have hwaits := (h.waits task htask dep).mpr ⟨hdep, hmissing⟩
    rw [hready] at hwaits
    exact absurd hwaits (Finset.notMem_empty dep)

theorem Progress.cyclic (h : Progress r ids remaining ordered) (hknown : ∀ id dep, r id dep → dep ∈ ids)
    (hne : remaining ≠ []) (hready : readyIds remaining = []) : Cyclic r := by
  refine exists_cycle (l := remaining.map Waiting.id) (fun hnil => hne (List.map_eq_nil_iff.mp hnil)) ?_
  intro id hid
  obtain ⟨task, htask, rfl⟩ := List.mem_map.mp hid
  have hwaiting : task.deps ≠ ∅ := by
    intro hempty
    have hmem := mem_readyIds.mpr ⟨task, htask, hempty, rfl⟩
    rw [hready] at hmem
    cases hmem
  obtain ⟨dep, hdep⟩ := Finset.nonempty_iff_ne_empty.mpr hwaiting
  obtain ⟨hrel, hunlisted⟩ := (h.waits task htask dep).mp hdep
  refine ⟨dep, ?_, hrel⟩
  exact (List.mem_append.mp (h.all.mem_iff.mpr (hknown task.id dep hrel))).resolve_left hunlisted

/-- **Runs**: all tasks are listed in order, or there is a cycle. -/
theorem Progress.outcome (h : Progress r ids remaining ordered) (hids : ids.Nodup)
    (hknown : ∀ id dep, r id dep → dep ∈ ids) :
    (∃ order, topologicalFrom remaining ordered = .ok order ∧ order.Perm ids ∧ DepsFirst r order) ∨
      (∃ e, topologicalFrom remaining ordered = .error e) ∧ Cyclic r := by
  induction remaining, ordered using topologicalFrom.induct with
  | case1 ordered =>
      refine Or.inl ⟨ordered, ?_, ?_, h.first⟩
      · rw [topologicalFrom, if_pos rfl]
      · have hall := h.all
        rwa [List.map_nil, List.append_nil] at hall
  | case2 remaining ordered hne hready =>
      refine Or.inr ⟨⟨.cycle (sorted (remaining.map Waiting.id)), ?_⟩, h.cyclic hknown hne hready⟩
      rw [topologicalFrom, if_neg hne, if_pos hready]
  | case3 remaining ordered hne hready ih =>
      rw [topologicalFrom, if_neg hne, if_neg hready]
      exact ih (h.advance hids)

end rounds

/-! ### The order of the tuple -/

section permutations

variable {remaining remaining' : List Waiting}

theorem readyIds_congr (h : remaining.Perm remaining') : readyIds remaining = readyIds remaining' :=
  sorted_congr ((h.filter _).map _)

theorem topologicalFrom_congr {ordered : List String} (h : remaining.Perm remaining') :
    topologicalFrom remaining ordered = topologicalFrom remaining' ordered := by
  induction remaining, ordered using topologicalFrom.induct generalizing remaining' with
  | case1 ordered => rw [h.nil_eq]
  | case2 remaining ordered hne hready =>
      have hne' : remaining' ≠ [] := fun hnil => hne (hnil ▸ h).eq_nil
      rw [topologicalFrom, if_neg hne, if_pos hready, topologicalFrom, if_neg hne',
        if_pos (readyIds_congr h ▸ hready), sorted_congr (h.map Waiting.id)]
  | case3 remaining ordered hne hready ih =>
      have hne' : remaining' ≠ [] := fun hnil => hne (hnil ▸ h).eq_nil
      rw [topologicalFrom, if_neg hne, if_neg hready, topologicalFrom.eq_def remaining', if_neg hne',
        if_neg (readyIds_congr h ▸ hready), ← readyIds_congr h]
      exact ih ((h.filter _).map _)

end permutations

/-! ### Graphs -/

section graphs

variable {tasks tasks' : List TaskNode}

/-- Every dependency is the id of a task. -/
def Known (tasks : List TaskNode) : Prop :=
  ∀ task ∈ tasks, ∀ dep ∈ task.dependsOn, dep ∈ tasks.map TaskNode.id

instance (tasks : List TaskNode) : Decidable (Known tasks) :=
  inferInstanceAs (Decidable (∀ task ∈ tasks, ∀ dep ∈ task.dependsOn, dep ∈ tasks.map TaskNode.id))

theorem topologicalOrder_eq (hids : (tasks.map TaskNode.id).Nodup) :
    topologicalOrder tasks = topologicalFrom (tasks.map waitingOf) [] := by
  have hnodup : (([] ++ tasks.map waitingOf).map Waiting.id).Nodup := by
    rw [List.nil_append, List.map_map]
    exact hids
  rw [topologicalOrder, Keyed.upsertAll_eq_append hnodup, List.nil_append]

theorem Progress.start (hids : (tasks.map TaskNode.id).Nodup) :
    Progress (DependsOn tasks) (tasks.map TaskNode.id) (tasks.map waitingOf) [] where
  all := by
    rw [List.nil_append, List.map_map]
    exact List.Perm.refl _
  waits := by
    intro waiting hwaiting dep
    obtain ⟨task, htask, rfl⟩ := List.mem_map.mp hwaiting
    refine List.mem_toFinset.trans ⟨fun hdep => ⟨⟨task, htask, rfl, hdep⟩, List.not_mem_nil⟩, ?_⟩
    rintro ⟨⟨other, hother, heq, hdep⟩, -⟩
    rwa [← List.inj_on_of_nodup_map hids hother htask heq]
  first := depsFirst_nil

theorem topologicalOrder_outcome (hids : (tasks.map TaskNode.id).Nodup) (hknown : Known tasks) :
    (∃ order, topologicalOrder tasks = .ok order ∧ order.Perm (tasks.map TaskNode.id) ∧
      DepsFirst (DependsOn tasks) order) ∨
    (∃ e, topologicalOrder tasks = .error e) ∧ Cyclic (DependsOn tasks) := by
  rw [topologicalOrder_eq hids]
  refine (Progress.start hids).outcome hids ?_
  rintro id dep ⟨task, htask, -, hdep⟩
  exact hknown task htask dep hdep

theorem not_cyclic_of_listed {order : List String} (hperm : order.Perm (tasks.map TaskNode.id))
    (h : DepsFirst (DependsOn tasks) order) : ¬Cyclic (DependsOn tasks) := by
  refine h.not_cyclic ?_
  rintro id dep ⟨task, htask, rfl, -⟩
  exact hperm.mem_iff.mpr (List.mem_map_of_mem htask)

theorem topologicalOrder_congr (hids : (tasks.map TaskNode.id).Nodup) (h : tasks.Perm tasks') :
    topologicalOrder tasks' = topologicalOrder tasks := by
  rw [topologicalOrder_eq hids, topologicalOrder_eq ((h.map _).nodup_iff.mp hids)]
  exact topologicalFrom_congr (h.symm.map _)

/-- A finite, acyclic plan: a goal and the bounded set of tasks to reach it. -/
structure TaskDag where
  goal : String
  tasks : List TaskNode
  nonempty : tasks ≠ []
  bounded : tasks.length ≤ maxTasksPerDag
  ids_nodup : (tasks.map TaskNode.id).Nodup
  known : Known tasks
  acyclic : ¬Cyclic (DependsOn tasks)

/-- The refusal for the first task with unknown dependencies. -/
def unknownDependency (tasks : List TaskNode) : Option InvalidTaskDag :=
  tasks.findSome? fun task =>
    let unknown := task.dependsOn.dedup.filter fun dep => decide (dep ∉ tasks.map TaskNode.id)
    if unknown = [] then none else some (.unknownTasks task.id (sorted unknown))

theorem unknownDependency_eq_none : unknownDependency tasks = none ↔ Known tasks := by
  unfold unknownDependency Known
  rw [List.findSome?_eq_none_iff]
  refine forall₂_congr fun task _ => ?_
  dsimp only
  rw [ite_eq_left_iff]
  simp

theorem acyclic_of_order (hids : (tasks.map TaskNode.id).Nodup) (hknown : Known tasks) {order : List String}
    (h : topologicalOrder tasks = .ok order) : ¬Cyclic (DependsOn tasks) := by
  rcases topologicalOrder_outcome hids hknown with ⟨order', -, hperm, hfirst⟩ | ⟨⟨e, he⟩, -⟩
  · exact not_cyclic_of_listed hperm hfirst
  · rw [h] at he
    cases he

/-- The validator of a graph. -/
def taskDag (goal : String) (tasks : List TaskNode) : Except InvalidTaskDag TaskDag :=
  if hnonempty : tasks = [] then .error .noTasks
  else if hbounded : maxTasksPerDag < tasks.length then .error (.tooManyTasks tasks.length)
  else if hids : (tasks.map TaskNode.id).Nodup then
    match hunknown : unknownDependency tasks with
    | some e => .error e
    | none =>
        match horder : topologicalOrder tasks with
        | .error e => .error e
        | .ok _ =>
            .ok ⟨goal, tasks, hnonempty, Nat.le_of_not_lt hbounded, hids,
              unknownDependency_eq_none.mp hunknown,
              acyclic_of_order hids (unknownDependency_eq_none.mp hunknown) horder⟩
  else .error .repeatedIds

/-- **Accepted graphs** are exactly those that a plan may be. -/
theorem taskDag_ok_iff (goal : String) (tasks : List TaskNode) :
    (∃ dag, taskDag goal tasks = .ok dag ∧ dag.goal = goal ∧ dag.tasks = tasks) ↔
      tasks ≠ [] ∧ tasks.length ≤ maxTasksPerDag ∧ (tasks.map TaskNode.id).Nodup ∧ Known tasks ∧
        ¬Cyclic (DependsOn tasks) := by
  constructor
  · rintro ⟨dag, -, -, rfl⟩
    exact ⟨dag.nonempty, dag.bounded, dag.ids_nodup, dag.known, dag.acyclic⟩
  · rintro ⟨hnonempty, hbounded, hids, hknown, hacyclic⟩
    unfold taskDag
    rw [dif_neg hnonempty, dif_neg (Nat.not_lt.mpr hbounded), dif_pos hids]
    split
    · rename_i e hunknown
      rw [unknownDependency_eq_none.mpr hknown] at hunknown
      cases hunknown
    · split
      · rename_i e horder
        rcases topologicalOrder_outcome hids hknown with ⟨order, horder', -, -⟩ | ⟨-, hcyclic⟩
        · rw [horder] at horder'
          cases horder'
        · exact absurd hcyclic hacyclic
      · exact ⟨_, rfl, rfl, rfl⟩

theorem TaskDag.exists_order (dag : TaskDag) : ∃ order, topologicalOrder dag.tasks = .ok order ∧
    order.Perm (dag.tasks.map TaskNode.id) ∧ DepsFirst (DependsOn dag.tasks) order :=
  (topologicalOrder_outcome dag.ids_nodup dag.known).resolve_right fun h => dag.acyclic h.2

/-- **Topological order**: tasks with ids of their own that depend on each other are refused exactly when
they have a cycle; else each is listed once, after all that it depends on, and however the tasks are
ordered the answer is the same. -/
theorem topologicalOrder_sound (tasks : List TaskNode) (hids : (tasks.map TaskNode.id).Nodup)
    (hknown : Known tasks) :
    ((∃ e, topologicalOrder tasks = .error e) ↔ Cyclic (DependsOn tasks)) ∧
      (∀ order, topologicalOrder tasks = .ok order →
        order.Perm (tasks.map TaskNode.id) ∧ DepsFirst (DependsOn tasks) order) ∧
      ∀ tasks', tasks.Perm tasks' → topologicalOrder tasks' = topologicalOrder tasks := by
  refine ⟨?_, ?_, fun tasks' => topologicalOrder_congr hids⟩
  · rcases topologicalOrder_outcome hids hknown with ⟨order, horder, hperm, hfirst⟩ | ⟨herror, hcyclic⟩
    · refine iff_of_false ?_ (not_cyclic_of_listed hperm hfirst)
      rintro ⟨e, he⟩
      rw [horder] at he
      cases he
    · exact iff_of_true herror hcyclic
  · intro order horder
    rcases topologicalOrder_outcome hids hknown with ⟨order', horder', h⟩ | ⟨⟨e, he⟩, -⟩
    · rw [horder] at horder'
      obtain rfl := Except.ok.inj horder'
      exact h
    · rw [horder] at he
      cases he

end graphs

/-! ### A plan of three tasks -/

def planTask (id : String) (dependsOn : List String) (h : strip id ≠ "") : TaskNode :=
  ⟨id, id, dependsOn, h, h⟩

/-- Two drafts to be read before they are sent. -/
def letterPlan : List TaskNode :=
  [planTask "send" ["resume", "letter"] (by decide), planTask "resume" [] (by decide),
    planTask "letter" ["resume"] (by decide)]

theorem topologicalOrder_sound_letterPlan :
    (¬∃ e, topologicalOrder letterPlan = .error e) ∧
      topologicalOrder letterPlan.reverse = .ok ["resume", "letter", "send"] := by
  have horder : topologicalOrder letterPlan = .ok ["resume", "letter", "send"] := by decide +kernel
  obtain ⟨hcycle, hlisted, hperm⟩ :=
    topologicalOrder_sound letterPlan (by decide) (by decide)
  constructor
  · obtain ⟨horderPerm, hfirst⟩ := hlisted _ horder
    exact fun herror => not_cyclic_of_listed horderPerm hfirst (hcycle.mp herror)
  · exact (hperm _ (List.reverse_perm _).symm).trans horder

end PersonalOS.Tasks
