import PersonalOS.SandboxConfinement

/-! # What a request goes through

`resolve` looks at a request as it is written and at the path it comes out at, not at what following
it goes through.

* **Names.** `lookedAt` says which names of a request the check of the written form sees;
  `FileSystem.followed` follows them, and with them the names that links are written with.
* **Requests.** `traversal_clean_iff`: a request that is resolved goes through hidden or denied
  directories and links exactly when it does so by a name that neither check sees. -/

namespace PersonalOS

open FileTree

namespace PathSandbox

/-- The names of an anchored request; those that the check of the written form sees are marked. -/
def lookedAt (sandbox : PathSandbox) (anchored : PurePath) : List (String × Bool) :=
  match sandbox.rootOf anchored.normpath with
  | none => anchored.parts.map (·, false)
  | some root =>
      if ".." ∈ anchored.parts then anchored.parts.map (·, false)
      else (anchored.parts.take root.parts.length).map (·, false) ++
        (anchored.parts.drop root.parts.length).map (·, true)

/-- There is a directory or a link under this name, strictly below an allowed root. -/
def PassesBelow {β : Type} (sandbox : PathSandbox) (fs : FileSystem β) (place : Place)
    (name : String) : Prop :=
  (fs.isDirectory (place ++ [name]) = true ∨ (fs.link (place ++ [name])).isSome = true) ∧
    ∃ root ∈ sandbox.roots, root.parts <+: place

/-- The name stands in the path that the request comes out at, below its root. -/
def KeptIn (sandbox : PathSandbox) (path : PurePath) (place : Place) (name : String) : Prop :=
  ∃ root, sandbox.rootOf path = some root ∧ root.parts <+: place ∧ place ++ [name] <+: path.parts

section lookedAt

variable {sandbox : PathSandbox} {casefold : String → String}
variable {realpath : List String → List String} {requested : String} {path anchored : PurePath}

theorem foldl_collapse {absolute : Bool} {names : List String} (h : ".." ∉ names)
    (done : List String) : names.foldl (PurePath.collapse absolute) done = done ++ names := by
  induction names generalizing done with
  | nil => exact (List.append_nil done).symm
  | cons name names ih =>
      have hname : name ≠ ".." := fun heq => h (heq ▸ List.mem_cons_self)
      have hrest : ".." ∉ names := fun hmem => h (List.mem_cons_of_mem name hmem)
      rw [List.foldl_cons, PurePath.collapse, if_pos (Or.inl hname), ih hrest,
        List.append_assoc, List.singleton_append]

theorem normpath_eq_self (h : ".." ∉ anchored.parts) : anchored.normpath = anchored := by
  rw [PurePath.normpath, foldl_collapse h, List.nil_append]

theorem checkLexical_of_eq_ok (hanchored : sandbox.anchored requested = some anchored)
    (h : sandbox.resolve casefold realpath requested = .ok path) :
    ∃ u, sandbox.checkLexical casefold requested anchored = .ok u := by
  unfold resolve at h
  split at h
  · cases h
  split at h
  · cases h
  split at h
  · cases h
  next primary others hroots =>
  obtain ⟨u, hlexical, -⟩ := bind_eq_ok h
  rw [PathSandbox.anchored, hroots] at hanchored
  obtain rfl := Option.some.inj hanchored
  exact ⟨u, hlexical⟩

theorem not_denied_of_lookedAt (hanchored : sandbox.anchored requested = some anchored)
    (h : sandbox.resolve casefold realpath requested = .ok path) {name : String}
    (hname : (name, true) ∈ sandbox.lookedAt anchored) :
    sandbox.isDenied casefold name = false := by
  obtain ⟨u, hlexical⟩ := checkLexical_of_eq_ok hanchored h
  have hunseen : (name, true) ∉ anchored.parts.map (·, false) := by simp
  unfold checkLexical at hlexical
  unfold lookedAt at hname
  dsimp only at hlexical
  split at hname
  · exact absurd hname hunseen
  next root hroot =>
  rw [hroot] at hlexical
  split at hname
  · exact absurd hname hunseen
  next hup =>
  rw [normpath_eq_self hup] at hlexical
  rcases List.mem_append.mp hname with hmem | hmem
  · obtain ⟨other, -, heq⟩ := List.mem_map.mp hmem
    cases (Prod.mk.inj heq).2
  · have hbelow : name ∈ anchored.relativeTo root := by
      obtain ⟨other, hother, heq⟩ := List.mem_map.mp hmem
      exact (Prod.mk.inj heq).1 ▸ hother
    exact refuseDeniedParts_eq_ok hlexical name hbelow

theorem not_denied_of_keptIn (h : sandbox.resolve casefold realpath requested = .ok path) {place : Place}
    {name : String} (hkept : sandbox.KeptIn path place name) : sandbox.isDenied casefold name = false := by
  obtain ⟨root, hroot, ⟨more, rfl⟩, rest, hparts⟩ := hkept
  refine refuseDeniedParts_of_eq_ok h hroot name ?_
  rw [PurePath.relativeTo, ← hparts, List.append_assoc, List.append_assoc, List.drop_left]
  simp

end lookedAt

end PathSandbox

open PathSandbox

/-- **What a request goes through**: no directory or link below an allowed root that following a
resolved request goes through is hidden or denied, if and only if none is that it goes through by a
name that no check sees: one that the written request does not show (it is in the target of a link, the
request has `..` in it or is not written below an allowed root, or it is one of the root itself) and that
is not in the path below its root. -/
theorem traversal_clean_iff {β : Type} (fs : FileSystem β) (casefold : String → String)
    (realpath : List String → List String) (sandbox : PathSandbox) (requested : String)
    (path : PurePath) (h : sandbox.resolve casefold realpath requested = .ok path) (links : ℕ) :
    (∀ anchored, sandbox.anchored requested = some anchored →
      ∀ place name seen, (place, name, seen) ∈ fs.followed false links [] (sandbox.lookedAt anchored) →
        sandbox.PassesBelow fs place name → sandbox.isDenied casefold name = false) ↔
    ∀ anchored, sandbox.anchored requested = some anchored →
      ∀ place name, (place, name, false) ∈ fs.followed false links [] (sandbox.lookedAt anchored) →
        sandbox.PassesBelow fs place name → ¬sandbox.KeptIn path place name →
          sandbox.isDenied casefold name = false := by
  constructor
  · intro hclean anchored hanchored place name hstep hpasses _
    exact hclean anchored hanchored place name false hstep hpasses
  · intro hunseen anchored hanchored place name seen hstep hpasses
    cases seen with
    | false =>
        by_cases hkept : sandbox.KeptIn path place name
        · exact not_denied_of_keptIn h hkept
        · exact hunseen anchored hanchored place name hstep hpasses hkept
    | true =>
        rcases FileSystem.mem_followed links [] _ _ hstep with hmark | hmem
        · cases hmark
        · exact not_denied_of_lookedAt hanchored h hmem

theorem empty_root : (FileSystem.empty : FileSystem String).node [] = some .directory := rfl

theorem no_data : (FileSystem.empty : FileSystem String).node ([] ++ ["data"]) ≠ some .directory := by
  decide

/-- `/data/a` leads to `/data/.ssh/out`, and that to `/data/notes`; `/data/b` leads there at once. -/
def detourFiles : FileSystem String :=
  (((((FileSystem.empty.put [] "data" (some .directory) empty_root no_data).put
    ["data"] "notes" (some .directory) rfl (by decide)).put
    ["data"] ".ssh" (some .directory) rfl (by decide)).put
    ["data"] "a" (some (.symlink false [".ssh", "out"])) rfl (by decide)).put
    ["data", ".ssh"] "out" (some (.symlink false ["..", "notes"])) rfl (by decide)).put
    ["data"] "b" (some (.symlink false ["notes"])) rfl (by decide)

def detourRealpath (names : List String) : List String :=
  (detourFiles.resolved 40 [] names).getD names

/-- Through a link that leads to where the request comes out. -/
theorem traversal_clean_iff_notes :
    resumeSandbox.resolve String.toLower detourRealpath "b/todo.md"
      = .ok { root := .slash, parts := ["data", "notes", "todo.md"] } ∧
    ∀ anchored, resumeSandbox.anchored "b/todo.md" = some anchored →
      ∀ place name seen, (place, name, seen) ∈
          detourFiles.followed false 40 [] (resumeSandbox.lookedAt anchored) →
        resumeSandbox.PassesBelow detourFiles place name →
        resumeSandbox.isDenied String.toLower name = false := by
  have hresolve : resumeSandbox.resolve String.toLower detourRealpath "b/todo.md"
      = .ok { root := .slash, parts := ["data", "notes", "todo.md"] } := by decide +kernel
  refine ⟨hresolve, (traversal_clean_iff detourFiles String.toLower detourRealpath resumeSandbox
    "b/todo.md" _ hresolve 40).mpr ?_⟩
  intro anchored hanchored place name hstep _ hkept
  obtain rfl := Option.some.inj hanchored
  have hall : ∀ step ∈ detourFiles.followed false 40 []
      (resumeSandbox.lookedAt { root := .slash, parts := ["data", "b", "todo.md"] }), step.2.2 = false →
        resumeSandbox.isDenied String.toLower step.2.1 = false := by decide +kernel
  exact hall _ hstep rfl

/-- A link into a hidden directory, and one out of it, both get through. -/
theorem traversal_through_hidden :
    resumeSandbox.resolve String.toLower detourRealpath "a/todo.md"
      = .ok { root := .slash, parts := ["data", "notes", "todo.md"] } ∧
    ∃ anchored, resumeSandbox.anchored "a/todo.md" = some anchored ∧
      (["data"], ".ssh", false) ∈
        detourFiles.followed false 40 [] (resumeSandbox.lookedAt anchored) ∧
      resumeSandbox.PassesBelow detourFiles ["data"] ".ssh" ∧
      resumeSandbox.isDenied String.toLower ".ssh" = true := by
  refine ⟨by decide +kernel, _, rfl, by decide +kernel, ⟨Or.inl (by decide +kernel), ?_⟩,
    by decide +kernel⟩
  exact ⟨{ root := .slash, parts := ["data"] }, List.mem_singleton_self _, List.prefix_rfl⟩

end PersonalOS
