import PersonalOS.FileTree
import PersonalOS.PathSandbox

/-! # What the sandbox lets through

A path that `PathSandbox.resolve` returns is confined to an allowed root, on every file system whose
canonical paths `realpath` finds.

* **Roots.** The roots of a sandbox are the canonical forms of allowed ones (`create_eq_ok`).
* **Requests.** `Resolved` is what the checks of `resolve` leave; `resolve_confined` collects what
  follows of the files. -/

namespace PersonalOS

open FileTree

namespace PathSandbox

/-- The request anchored at the primary root. -/
def anchored (sandbox : PathSandbox) (requested : String) : Option PurePath :=
  sandbox.roots.head?.map (·.join (PurePath.ofText requested))

/-- The names that opening the request so anchored follows. -/
def openedNames (sandbox : PathSandbox) (requested : String) : List String :=
  if (PurePath.ofText requested).isAbsolute then PurePath.names requested
  else (sandbox.roots.head?.elim [] PurePath.parts) ++ PurePath.names requested

/-! ### Construction -/

section create

variable {casefold : String → String} {realpath : List String → List String}
variable {deniedNames allowedRoots : List String} {roots roots' : List PurePath} {raw : String}

theorem mem_of_addRoot (h : addRoot casefold realpath deniedNames roots raw = .ok roots')
    {root : PurePath} (hroot : root ∈ roots') :
    root ∈ roots ∨ root = canonical realpath (PurePath.ofText raw) := by
  unfold addRoot at h
  dsimp only at h
  split at h
  · cases h
  split at h
  · cases h
  split at h
  · cases h
  obtain rfl := Except.ok.inj h
  split at hroot
  · exact Or.inl hroot
  · simpa using hroot

theorem mem_of_foldlM_addRoot
    (h : allowedRoots.foldlM (addRoot casefold realpath deniedNames) roots = .ok roots')
    {root : PurePath} (hroot : root ∈ roots') :
    root ∈ roots ∨ ∃ raw ∈ allowedRoots, root = canonical realpath (PurePath.ofText raw) := by
  induction allowedRoots generalizing roots with
  | nil =>
      obtain rfl := Except.ok.inj h
      exact Or.inl hroot
  | cons raw allowedRoots ih =>
      rw [List.foldlM_cons] at h
      obtain ⟨roots₁, hadd, hrest⟩ := bind_eq_ok h
      rcases ih hrest with hmem | ⟨raw', hraw', heq⟩
      · rcases mem_of_addRoot hadd hmem with hmem | heq
        · exact Or.inl hmem
        · exact Or.inr ⟨raw, List.mem_cons_self, heq⟩
      · exact Or.inr ⟨raw', List.mem_cons_of_mem raw hraw', heq⟩

/-- What construction accepts. -/
theorem create_eq_ok {sandbox : PathSandbox}
    (h : create casefold realpath allowedRoots deniedNames = .ok sandbox) :
    sandbox.deniedNames = deniedNames.map casefold ∧ ∀ root ∈ sandbox.roots,
      ∃ raw ∈ allowedRoots, root = canonical realpath (PurePath.ofText raw) := by
  obtain ⟨roots, hroots, hsandbox⟩ := bind_eq_ok h
  obtain rfl := Except.ok.inj hsandbox
  refine ⟨rfl, fun root hroot => ?_⟩
  rcases mem_of_foldlM_addRoot hroots hroot with hmem | hraw
  · cases hmem
  · exact hraw

end create

/-! ### Requests -/

section resolve

variable {sandbox : PathSandbox} {casefold : String → String}
variable {realpath : List String → List String} {requested : String} {path : PurePath}

theorem isWithin_iff {root : PurePath} :
    path.isWithin root = true ↔
      ∃ below, path = { root with parts := root.parts ++ below } ∧ path.relativeTo root = below := by
  unfold PurePath.isWithin PurePath.relativeTo
  constructor
  · intro h
    obtain ⟨hroot, hpre⟩ := Bool.and_eq_true_iff.mp h
    obtain ⟨below, hbelow⟩ := List.isPrefixOf_iff_prefix.mp hpre
    obtain ⟨pathRoot, parts⟩ := path
    obtain rfl : pathRoot = root.root := by simpa using hroot
    obtain rfl : root.parts ++ below = parts := hbelow
    exact ⟨below, rfl, List.drop_left⟩
  · rintro ⟨below, rfl, -⟩
    simp

theorem refuseDeniedParts_eq_ok {parts : List String} {u : Unit}
    (h : sandbox.refuseDeniedParts casefold requested parts = .ok u) :
    ∀ part ∈ parts, sandbox.isDenied casefold part = false := by
  unfold refuseDeniedParts at h
  split at h
  · cases h
  · next hnone =>
      intro part hpart
      simpa using List.find?_eq_none.mp hnone part hpart

theorem refuseDeniedParts_of_eq_ok (h : sandbox.resolve casefold realpath requested = .ok path)
    {root : PurePath} (hroot : sandbox.rootOf path = some root) :
    ∀ part ∈ path.relativeTo root, sandbox.isDenied casefold part = false := by
  unfold resolve at h
  split at h
  · cases h
  split at h
  · cases h
  split at h
  · cases h
  obtain ⟨-, -, h⟩ := bind_eq_ok h
  dsimp only at h
  split at h
  · cases h
  next root' hroot' =>
  obtain ⟨u, hparts, h⟩ := bind_eq_ok h
  split at h
  · cases h
  obtain rfl := Except.ok.inj h
  obtain rfl := Option.some.inj (hroot'.symm.trans hroot)
  exact refuseDeniedParts_eq_ok hparts

/-- What `resolve` has checked of the path it returns. -/
structure Resolved (sandbox : PathSandbox) (casefold : String → String)
    (realpath : List String → List String) (requested : String) (path : PurePath) : Prop where
  canonical : ∃ anchored, sandbox.anchored requested = some anchored ∧
    path = canonical realpath anchored
  below_root : ∃ root ∈ sandbox.roots, ∃ below, path = { root with parts := root.parts ++ below } ∧
    below ≠ [] ∧ ∀ part ∈ below, sandbox.isDenied casefold part = false

theorem resolved_of_eq_ok (h : sandbox.resolve casefold realpath requested = .ok path) :
    Resolved sandbox casefold realpath requested path := by
  unfold resolve at h
  split at h
  · cases h
  split at h
  · cases h
  split at h
  · cases h
  next primary others hroots =>
  obtain ⟨-, -, h⟩ := bind_eq_ok h
  dsimp only at h
  split at h
  · cases h
  next root hroot =>
  obtain ⟨u, hparts, h⟩ := bind_eq_ok h
  split at h
  · cases h
  next hne =>
  obtain rfl := Except.ok.inj h
  have hmem : root ∈ sandbox.roots := List.mem_of_find?_eq_some hroot
  obtain ⟨below, hpath, hbelow⟩ := isWithin_iff.mp (List.find?_some hroot)
  rw [hbelow] at hparts
  refine ⟨⟨_, ?_, rfl⟩, root, hmem, below, hpath, ?_, refuseDeniedParts_eq_ok hparts⟩
  · rw [anchored, hroots]
    rfl
  · rintro rfl
    rw [List.append_nil] at hpath
    exact hne hpath

theorem filter_ofText :
    (PurePath.ofText requested).parts.filter (!stays ·)
      = (PurePath.names requested).filter (!stays ·) := by
  unfold PurePath.ofText
  rw [List.filter_filter]
  exact List.filter_congr fun name _ => Bool.and_self _

/-- The parts of the anchored request are the names that opening it follows, without those that stay
where they are. -/
theorem filter_openedNames {anchored : PurePath} (h : sandbox.anchored requested = some anchored) :
    (sandbox.openedNames requested).filter (!stays ·) = anchored.parts.filter (!stays ·) := by
  obtain ⟨primary, hprimary, rfl⟩ := Option.map_eq_some_iff.mp h
  unfold openedNames PurePath.join
  rw [hprimary]
  split
  · exact filter_ofText.symm
  · rw [Option.elim_some, List.filter_append, List.filter_append, filter_ofText]

end resolve

end PathSandbox

open PathSandbox

/-- **Path sandbox confinement**: a path that `resolve` returns is free of links and strictly below a
canonical root, with no hidden or denied component below it; opening the anchored request reaches no
other place. -/
theorem resolve_confined {β : Type} (fs : FileSystem β) (casefold : String → String)
    (realpath₀ realpath : List String → List String) (allowedRoots deniedNames : List String)
    (sandbox : PathSandbox) (requested : String) (path : PurePath)
    (hsandbox : create casefold realpath₀ allowedRoots deniedNames = .ok sandbox)
    (hrealpath : ∀ anchored, sandbox.anchored requested = some anchored →
      ∃ links, fs.resolved links [] anchored.parts = some (realpath anchored.parts))
    (h : sandbox.resolve casefold realpath requested = .ok path) :
    fs.SymlinkFree path.parts ∧
    (∃ raw ∈ allowedRoots, ∃ below, below ≠ [] ∧
      path = { root := .slash, parts := realpath₀ (PurePath.ofText raw).parts ++ below } ∧
      ∀ part ∈ below, part.startsWith "." = false ∧ casefold part ∉ deniedNames.map casefold) ∧
    ∀ links p, fs.walk links [] (sandbox.openedNames requested) = .ok p → p = path.parts := by
  obtain ⟨hdenied, hroots⟩ := create_eq_ok hsandbox
  obtain ⟨⟨anchored, hanchored, hpath⟩, root, hroot, below, hbelow, hne, hparts⟩ :=
    resolved_of_eq_ok h
  obtain ⟨links, hresolved⟩ := hrealpath anchored hanchored
  have hcanonical : path.parts = realpath anchored.parts := congrArg PurePath.parts hpath
  rw [← hcanonical] at hresolved
  refine ⟨FileSystem.symlinkFree_resolved hresolved FileSystem.symlinkFree_root, ?_,
    fun links' p hp => ?_⟩
  · obtain ⟨raw, hraw, rfl⟩ := hroots root hroot
    refine ⟨raw, hraw, below, hne, hbelow, fun part hpart => ?_⟩
    have hallowed := hparts part hpart
    rw [isDenied, hdenied, Bool.or_eq_false_iff] at hallowed
    exact ⟨hallowed.1, by simpa using hallowed.2⟩
  · have hwalked := FileSystem.resolved_of_walk hp
    have hopened := FileSystem.resolved_of_filter_eq hresolved (filter_openedNames hanchored)
    exact FileSystem.resolved_unique hwalked hopened

/-- `/data/resumes/cv.md`, and a link `/data/latest` to its directory. -/
def resumeFiles : FileSystem String :=
  (((FileSystem.empty.put [] "data" (some .directory) rfl (by decide)).put
    ["data"] "resumes" (some .directory) rfl (by decide)).put
    ["data"] "latest" (some (.symlink false ["resumes"])) rfl (by decide)).put
    ["data", "resumes"] "cv.md" (some (.file "cv")) rfl (by decide)

/-- `os.path.realpath` on these files. -/
def resumeRealpath (names : List String) : List String :=
  (resumeFiles.resolved 8 [] names).getD names

def resumeSandbox : PathSandbox where
  deniedNames := defaultDeniedNames
  roots := [{ root := .slash, parts := ["data"] }]

theorem resolve_confined_latest :
    resumeFiles.SymlinkFree ["data", "resumes", "cv.md"] ∧
    (∃ raw ∈ ["/data/"], ∃ below, below ≠ [] ∧
      (⟨.slash, ["data", "resumes", "cv.md"]⟩ : PurePath)
        = { root := .slash, parts := resumeRealpath (PurePath.ofText raw).parts ++ below } ∧
      ∀ part ∈ below, part.startsWith "." = false ∧
        part.toLower ∉ defaultDeniedNames.map String.toLower) ∧
    ∀ links p, resumeFiles.walk links [] (resumeSandbox.openedNames "latest/./cv.md") = .ok p →
      p = ["data", "resumes", "cv.md"] :=
  resolve_confined resumeFiles String.toLower resumeRealpath resumeRealpath ["/data/"]
    defaultDeniedNames resumeSandbox "latest/./cv.md" ⟨.slash, ["data", "resumes", "cv.md"]⟩
    (by decide +kernel)
    (by
      intro anchored hanchored
      obtain rfl := Option.some.inj hanchored
      exact ⟨8, by decide +kernel⟩)
    (by decide +kernel)

/-- A file can be resolved through a directory that is not there, and not be opened. -/
theorem resolve_not_opened :
    create String.toLower resumeRealpath ["/data/"] defaultDeniedNames = .ok resumeSandbox ∧
    (∀ anchored, resumeSandbox.anchored "gone/../resumes/cv.md" = some anchored →
      resumeFiles.resolved 8 [] anchored.parts = some (resumeRealpath anchored.parts)) ∧
    resumeSandbox.resolve String.toLower resumeRealpath "gone/../resumes/cv.md"
      = .ok ⟨.slash, ["data", "resumes", "cv.md"]⟩ ∧
    ∀ links, resumeFiles.walk links [] (resumeSandbox.openedNames "gone/../resumes/cv.md")
      = .error .notFound := by
  refine ⟨by decide +kernel, fun anchored hanchored => ?_, by decide +kernel, fun links => ?_⟩
  · obtain rfl := Option.some.inj hanchored
    decide +kernel
  · cases links <;> rfl

end PersonalOS
