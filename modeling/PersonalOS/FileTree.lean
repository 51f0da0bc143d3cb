import Mathlib.Data.List.Infix
import Mathlib.Logic.Function.Basic
import Mathlib.Data.Nat.Notation
import Mathlib.Tactic.Common

/-! # File trees

Directories, files and symbolic links under one root.

* **Trees.** A `FileSystem` says what is at each place; whatever is below a place is below a
  directory.
* **Following names.** `walk` follows names as opening a file does: what is passed must be a
  directory, and links are followed, so many at most.  `resolved` follows them without asking what is
  there, as the canonical form of a path is found.  It comes out where `walk` does
  (`resolved_of_walk`), on a place without links (`symlinkFree_resolved`), and on one place only
  (`resolved_unique`).  `followed` is what is gone through on the way.
* **Changes.** `update` puts a node, or nothing, where no directory is.  Names go on leading to a
  directory while nothing but files is replaced (`KeepsPaths`). -/

namespace FileTree

/-- The names from the root to a place. -/
abbrev Place := List String

inductive Node (β : Type) where
  | directory
  | file (content : β)
  /-- The names its target is written with. -/
  | symlink (absolute : Bool) (names : List String)
  /-- A device, a pipe, a socket. -/
  | special
deriving DecidableEq, Repr

structure FileSystem (β : Type) where
  node : Place → Option (Node β)
  root_directory : node [] = some .directory
  parent_directory : ∀ place name, node (place ++ [name]) ≠ none → node place = some .directory

/-- Why following names fails. -/
inductive WalkError where
  | notFound
  | notADirectory
  | tooManyLinks
deriving DecidableEq, Repr

/-- A name that stays where it is. -/
def stays (name : String) : Bool := name = "" || name = "."

namespace FileSystem

variable {β : Type} (fs : FileSystem β)

/-- Where the link at a place leads. -/
def link (place : Place) : Option (Bool × List String) :=
  match fs.node place with
  | some (.symlink absolute names) => some (absolute, names)
  | _ => none

/-- Follow names that all are at or below a directory; `follow` goes on after a link. -/
def walkWith (follow : Place → List String → Except WalkError Place) :
    Place → List String → Except WalkError Place
  | place, [] => .ok place
  | place, name :: rest =>
      match fs.node place with
      | none => .error .notFound
      | some .directory =>
          if stays name then walkWith follow place rest
          else if name = ".." then walkWith follow place.dropLast rest
          else match fs.link (place ++ [name]) with
            | none => walkWith follow (place ++ [name]) rest
            | some (absolute, target) => follow (if absolute then [] else place) (target ++ rest)
      | some _ => .error .notADirectory

/-- Where names followed from a place lead, through `links` symbolic links at most. -/
def walk : ℕ → Place → List String → Except WalkError Place
  | 0 => fs.walkWith fun _ _ => .error .tooManyLinks
  | links + 1 => fs.walkWith (walk links)

/-- Follow names whatever there is; `follow` goes on after a link. -/
def resolvedWith (follow : Place → List String → Option Place) :
    Place → List String → Option Place
  | place, [] => some place
  | place, name :: rest =>
      if stays name then resolvedWith follow place rest
      else if name = ".." then resolvedWith follow place.dropLast rest
      else match fs.link (place ++ [name]) with
        | none => resolvedWith follow (place ++ [name]) rest
        | some (absolute, target) => follow (if absolute then [] else place) (target ++ rest)

/-- The place without links that names lead to, whether anything is there or not. -/
def resolved : ℕ → Place → List String → Option Place
  | 0 => fs.resolvedWith fun _ _ => none
  | links + 1 => fs.resolvedWith (resolved links)

/-- No link on the way from the root to a place, nor at it. -/
def SymlinkFree (place : Place) : Prop := ∀ before, before <+: place → fs.link before = none

variable {fs}

/-! ### Following names -/

/-- Induction along names that are followed. -/
theorem follow_induction (fs : FileSystem β) {motive : ℕ → Place → List String → Prop}
    (nil : ∀ links place, motive links place [])
    (stay : ∀ links place name rest, stays name = true → motive links place rest →
      motive links place (name :: rest))
    (up : ∀ links place rest, motive links place.dropLast rest → motive links place (".." :: rest))
    (step : ∀ links place name rest, ¬stays name = true → name ≠ ".." →
      fs.link (place ++ [name]) = none → motive links (place ++ [name]) rest →
      motive links place (name :: rest))
    (stuck : ∀ place name rest absolute target, ¬stays name = true → name ≠ ".." →
      fs.link (place ++ [name]) = some (absolute, target) → motive 0 place (name :: rest))
    (link : ∀ links place name rest absolute target, ¬stays name = true → name ≠ ".." →
      fs.link (place ++ [name]) = some (absolute, target) →
      motive links (if absolute then [] else place) (target ++ rest) →
      motive (links + 1) place (name :: rest)) (links : ℕ) (place : Place) (names : List String) :
    motive links place names := by
  induction links generalizing place names with
  | zero =>
      induction names generalizing place with
      | nil => exact nil 0 place
      | cons name rest ih =>
          by_cases hstays : stays name = true
          · exact stay 0 place name rest hstays (ih place)
          by_cases hup : name = ".."
          · subst hup
            exact up 0 place rest (ih _)
          cases hlink : fs.link (place ++ [name]) with
          | none => exact step 0 place name rest hstays hup hlink (ih _)
          | some way => exact stuck place name rest way.1 way.2 hstays hup hlink
  | succ links ihlinks =>
      induction names generalizing place with
      | nil => exact nil (links + 1) place
      | cons name rest ih =>
          by_cases hstays : stays name = true
          · exact stay (links + 1) place name rest hstays (ih place)
          by_cases hup : name = ".."
          · subst hup
            exact up (links + 1) place rest (ih _)
          cases hlink : fs.link (place ++ [name]) with
          | none => exact step (links + 1) place name rest hstays hup hlink (ih _)
          | some way =>
              exact link links place name rest way.1 way.2 hstays hup hlink (ihlinks _ _)

/-! ### Resolved places -/

section resolved

variable {links links' : ℕ} {place p p' : Place} {name : String} {names rest : List String}

@[simp] theorem resolved_nil : fs.resolved links place [] = some place := by
  cases links <;> rfl

theorem resolved_stays (hstays : stays name = true) :
    fs.resolved links place (name :: rest) = fs.resolved links place rest := by
  cases links <;> exact if_pos hstays

theorem resolved_up :
    fs.resolved links place (".." :: rest) = fs.resolved links place.dropLast rest := by
  cases links <;> rfl

theorem resolved_step (hstays : ¬stays name = true) (hup : name ≠ "..")
    (hlink : fs.link (place ++ [name]) = none) :
    fs.resolved links place (name :: rest) = fs.resolved links (place ++ [name]) rest := by
  cases links <;> simp only [resolved, resolvedWith, if_neg hstays, if_neg hup, hlink]

theorem resolved_stuck (hstays : ¬stays name = true) (hup : name ≠ "..") {absolute : Bool}
    {target : List String} (hlink : fs.link (place ++ [name]) = some (absolute, target)) :
    fs.resolved 0 place (name :: rest) = none := by
  simp only [resolved, resolvedWith, if_neg hstays, if_neg hup, hlink]

theorem resolved_link (hstays : ¬stays name = true) (hup : name ≠ "..") {absolute : Bool}
    {target : List String} (hlink : fs.link (place ++ [name]) = some (absolute, target)) :
    fs.resolved (links + 1) place (name :: rest) =
      fs.resolved links (if absolute then [] else place) (target ++ rest) := by
  simp only [resolved, resolvedWith, if_neg hstays, if_neg hup, hlink]

theorem link_root : fs.link [] = none := by
  rw [link, fs.root_directory]

theorem symlinkFree_root : fs.SymlinkFree [] := by
  intro before hbefore
  rw [List.prefix_nil.mp hbefore]
  exact link_root

theorem SymlinkFree.of_prefix {before : Place} (h : fs.SymlinkFree place)
    (hbefore : before <+: place) : fs.SymlinkFree before :=
  fun earlier hearlier => h earlier (hearlier.trans hbefore)

theorem SymlinkFree.concat (h : fs.SymlinkFree place) (hlink : fs.link (place ++ [name]) = none) :
    fs.SymlinkFree (place ++ [name]) := by
  intro before hbefore
  rcases List.prefix_concat_iff.mp hbefore with rfl | hbefore
  · exact hlink
  · exact h before hbefore

/-- **Canonical places** are free of links. -/
theorem symlinkFree_resolved (h : fs.resolved links place names = some p)
    (hplace : fs.SymlinkFree place) : fs.SymlinkFree p := by
  induction links, place, names using fs.follow_induction with
  | nil links place =>
      obtain rfl := Option.some.inj (resolved_nil.symm.trans h)
      exact hplace
  | stay links place name rest hstays ih => exact ih (resolved_stays hstays ▸ h) hplace
  | up links place rest ih =>
      exact ih (resolved_up ▸ h) (hplace.of_prefix (List.dropLast_prefix place))
  | step links place name rest hstays hup hlink ih =>
      exact ih (resolved_step hstays hup hlink ▸ h) (hplace.concat hlink)
  | stuck place name rest absolute target hstays hup hlink =>
      rw [resolved_stuck hstays hup hlink] at h
      cases h
  | link links place name rest absolute target hstays hup hlink ih =>
      refine ih (resolved_link hstays hup hlink ▸ h) ?_
      split
      · exact symlinkFree_root
      · exact hplace

/-- More links allowed, no other place. -/
theorem resolved_mono (h : fs.resolved links place names = some p) (hle : links ≤ links') :
    fs.resolved links' place names = some p := by
  induction links, place, names using fs.follow_induction generalizing links' with
  | nil links place => rwa [resolved_nil] at h ⊢
  | stay links place name rest hstays ih =>
      rw [resolved_stays hstays] at h ⊢
      exact ih h hle
  | up links place rest ih =>
      rw [resolved_up] at h ⊢
      exact ih h hle
  | step links place name rest hstays hup hlink ih =>
      rw [resolved_step hstays hup hlink] at h ⊢
      exact ih h hle
  | stuck place name rest absolute target hstays hup hlink =>
      rw [resolved_stuck hstays hup hlink] at h
      cases h
  | link links place name rest absolute target hstays hup hlink ih =>
      obtain ⟨more, rfl⟩ : ∃ m, links' = m + 1 := ⟨links' - 1, by omega⟩
      rw [resolved_link hstays hup hlink] at h ⊢
      exact ih h (by omega)

/-- Names lead to one canonical place. -/
theorem resolved_unique (h : fs.resolved links place names = some p)
    (h' : fs.resolved links' place names = some p') : p = p' := by
  have hp := resolved_mono h (le_max_left links links')
  have hp' := resolved_mono h' (le_max_right links links')
  exact Option.some.inj (hp.symm.trans hp')

theorem resolved_stays_append {before : List String} (h : ∀ name ∈ before, ¬(!stays name) = true) :
    fs.resolved links place (before ++ rest) = fs.resolved links place rest := by
  induction before with
  | nil => rfl
  | cons name before ih =>
      have hstays : stays name = true := by simpa using h name List.mem_cons_self
      rw [List.cons_append, resolved_stays hstays]
      exact ih fun other hother => h other (List.mem_cons_of_mem name hother)

/-- The first name that goes somewhere is followed first. -/
theorem resolved_eq_cons {kept : List String} (hkept : kept.filter (!stays ·) = name :: names) :
    ∃ kept', kept'.filter (!stays ·) = names ∧ ∀ links place,
      fs.resolved links place kept = fs.resolved links place (name :: kept') := by
  obtain ⟨before, kept', rfl, hbefore, -, hrest⟩ := List.filter_eq_cons_iff.mp hkept
  exact ⟨kept', hrest, fun _ _ => resolved_stays_append hbefore⟩

/-- Where names lead depends on those alone that go somewhere. -/
theorem resolved_of_filter_eq (h : fs.resolved links place names = some p) {kept : List String}
    (hkept : kept.filter (!stays ·) = names.filter (!stays ·)) :
    fs.resolved links place kept = some p := by
  induction links, place, names using fs.follow_induction generalizing kept with
  | nil links place =>
      have hstays := List.filter_eq_nil_iff.mp hkept
      rwa [← kept.append_nil, resolved_stays_append hstays]
  | stay links place name rest hstays ih =>
      refine ih (resolved_stays hstays ▸ h) ?_
      rw [hkept, List.filter_cons_of_neg (by simp [hstays])]
  | up links place rest ih =>
      rw [List.filter_cons_of_pos (by decide)] at hkept
      obtain ⟨kept', hrest, heq⟩ := resolved_eq_cons hkept
      rw [resolved_up] at h
      rw [heq, resolved_up]
      exact ih h hrest
  | step links place name rest hstays hup hlink ih =>
      rw [List.filter_cons_of_pos (by simp [hstays])] at hkept
      obtain ⟨kept', hrest, heq⟩ := resolved_eq_cons hkept
      rw [resolved_step hstays hup hlink] at h
      rw [heq, resolved_step hstays hup hlink]
      exact ih h hrest
  | stuck place name rest absolute target hstays hup hlink =>
      rw [resolved_stuck hstays hup hlink] at h
      cases h
  | link links place name rest absolute target hstays hup hlink ih =>
      rw [List.filter_cons_of_pos (by simp [hstays])] at hkept
      obtain ⟨kept', hrest, heq⟩ := resolved_eq_cons hkept
      rw [resolved_link hstays hup hlink] at h
      rw [heq, resolved_link hstays hup hlink]
      refine ih h ?_
      rw [List.filter_append, List.filter_append, hrest]

end resolved

/-! ### Opened places -/

section walk

variable {links : ℕ} {place p : Place} {name : String} {names rest : List String}

@[simp] theorem walk_nil : fs.walk links place [] = .ok place := by
  cases links <;> rfl

/-- What names are followed from is a directory. -/
theorem directory_of_walk (h : fs.walk links place (name :: rest) = .ok p) :
    fs.node place = some .directory := by
  have hwith : ∀ follow, fs.walkWith follow place (name :: rest) = .ok p →
      fs.node place = some .directory := by
    intro follow h
    rw [walkWith] at h
    split at h
    · cases h
    · assumption
    · cases h
  cases links with
  | zero => exact hwith _ h
  | succ links => exact hwith _ h

theorem walk_stays (hplace : fs.node place = some .directory) (hstays : stays name = true) :
    fs.walk links place (name :: rest) = fs.walk links place rest := by
  cases links <;> simp only [walk, walkWith, hplace, if_pos hstays]

theorem walk_up (hplace : fs.node place = some .directory) :
    fs.walk links place (".." :: rest) = fs.walk links place.dropLast rest := by
  have hstays : ¬stays ".." = true := by decide
  cases links <;> simp only [walk, walkWith, hplace, if_neg hstays, if_true]

theorem walk_step (hplace : fs.node place = some .directory) (hstays : ¬stays name = true)
    (hup : name ≠ "..") (hlink : fs.link (place ++ [name]) = none) :
    fs.walk links place (name :: rest) = fs.walk links (place ++ [name]) rest := by
  cases links <;> simp only [walk, walkWith, hplace, if_neg hstays, if_neg hup, hlink]

theorem walk_stuck (hplace : fs.node place = some .directory) (hstays : ¬stays name = true)
    (hup : name ≠ "..") {absolute : Bool} {target : List String}
    (hlink : fs.link (place ++ [name]) = some (absolute, target)) :
    fs.walk 0 place (name :: rest) = .error .tooManyLinks := by
  simp only [walk, walkWith, hplace, if_neg hstays, if_neg hup, hlink]

theorem walk_link (hplace : fs.node place = some .directory) (hstays : ¬stays name = true)
    (hup : name ≠ "..") {absolute : Bool} {target : List String}
    (hlink : fs.link (place ++ [name]) = some (absolute, target)) :
    fs.walk (links + 1) place (name :: rest) =
      fs.walk links (if absolute then [] else place) (target ++ rest) := by
  simp only [walk, walkWith, hplace, if_neg hstays, if_neg hup, hlink]

/-- **What is opened is canonical**: names that lead somewhere lead to their canonical place. -/
theorem resolved_of_walk (h : fs.walk links place names = .ok p) :
    fs.resolved links place names = some p := by
  induction links, place, names using fs.follow_induction with
  | nil links place =>
      rw [walk_nil] at h
      rw [resolved_nil, Except.ok.inj h]
  | stay links place name rest hstays ih =>
      rw [walk_stays (directory_of_walk h) hstays] at h
      rw [resolved_stays hstays]
      exact ih h
  | up links place rest ih =>
      rw [walk_up (directory_of_walk h)] at h
      rw [resolved_up]
      exact ih h
  | step links place name rest hstays hup hlink ih =>
      rw [walk_step (directory_of_walk h) hstays hup hlink] at h
      rw [resolved_step hstays hup hlink]
      exact ih h
  | stuck place name rest absolute target hstays hup hlink =>
      rw [walk_stuck (directory_of_walk h) hstays hup hlink] at h
      cases h
  | link links place name rest absolute target hstays hup hlink ih =>
      rw [walk_link (directory_of_walk h) hstays hup hlink] at h
      rw [resolved_link hstays hup hlink]
      exact ih h

end walk

/-! ### What is gone through -/

section followed

variable {ι : Type} (mark : ι)

/-- The names that are followed, each at its place; `follow` goes on after a link. -/
def followedWith (fs : FileSystem β)
    (follow : Place → List (String × ι) → List (Place × String × ι)) :
    Place → List (String × ι) → List (Place × String × ι)
  | _, [] => []
  | place, (name, label) :: rest =>
      if stays name then followedWith fs follow place rest
      else if name = ".." then followedWith fs follow place.dropLast rest
      else (place, name, label) :: match fs.link (place ++ [name]) with
        | none => followedWith fs follow (place ++ [name]) rest
        | some (absolute, target) =>
            follow (if absolute then [] else place) (target.map (·, mark) ++ rest)

/-- The names that are followed, with their labels; those a link is written with are labelled
`mark`. -/
def followed (fs : FileSystem β) :
    ℕ → Place → List (String × ι) → List (Place × String × ι)
  | 0 => fs.followedWith mark fun _ _ => []
  | links + 1 => fs.followedWith mark (followed fs links)

variable {mark}

theorem mem_followedWith {follow : Place → List (String × ι) → List (Place × String × ι)}
    (hfollow : ∀ place names, ∀ step ∈ follow place names,
      step.2.2 = mark ∨ step.2 ∈ names) (place : Place) (names : List (String × ι)) :
    ∀ step ∈ fs.followedWith mark follow place names, step.2.2 = mark ∨ step.2 ∈ names := by
  induction names generalizing place with
  | nil =>
      intro step hstep
      cases hstep
  | cons entry rest ih =>
      have hrest : ∀ place, ∀ step ∈ fs.followedWith mark follow place rest,
          step.2.2 = mark ∨ step.2 ∈ entry :: rest := by
        intro place step hstep
        exact (ih place step hstep).imp_right (List.mem_cons_of_mem entry)
      intro step hstep
      rw [followedWith] at hstep
      split at hstep
      · exact hrest _ step hstep
      split at hstep
      · exact hrest _ step hstep
      rcases List.mem_cons.mp hstep with rfl | hstep
      · exact Or.inr List.mem_cons_self
      split at hstep
      · exact hrest _ step hstep
      · rcases hfollow _ _ step hstep with hmark | hmem
        · exact Or.inl hmark
        rcases List.mem_append.mp hmem with htarget | hmem
        · obtain ⟨name, -, hname⟩ := List.mem_map.mp htarget
          exact Or.inl (congrArg Prod.snd hname).symm
        · exact Or.inr (List.mem_cons_of_mem entry hmem)

/-- A name with another label is one of those that were given. -/
theorem mem_followed (links : ℕ) (place : Place) (names : List (String × ι)) :
    ∀ step ∈ fs.followed mark links place names, step.2.2 = mark ∨ step.2 ∈ names := by
  induction links generalizing place names with
  | zero =>
      refine mem_followedWith (fun _ _ step hstep => ?_) place names
      cases hstep
  | succ links ih => exact mem_followedWith ih place names

end followed

/-! ### Changes -/

/-- A root with nothing below it. -/
def empty : FileSystem β where
  node place := if place = [] then some .directory else none
  root_directory := if_pos rfl
  parent_directory := by
    intro place name h
    simp at h

/-- Put a node, or nothing, at a place that is no directory. -/
def put (fs : FileSystem β) (place : Place) (name : String) (node : Option (Node β))
    (hplace : fs.node place = some .directory)
    (hleaf : fs.node (place ++ [name]) ≠ some .directory) : FileSystem β where
  node := Function.update fs.node (place ++ [name]) node
  root_directory := by
    rw [Function.update_of_ne (by simp), fs.root_directory]
  parent_directory := by
    intro above below h
    have hne : place ≠ place ++ [name] := by simp
    by_cases heq : above ++ [below] = place ++ [name]
    · obtain ⟨rfl, -⟩ := List.append_inj' heq rfl
      rw [Function.update_of_ne hne, hplace]
    · rw [Function.update_of_ne heq] at h
      have habove := fs.parent_directory above below h
      have hother : above ≠ place ++ [name] := by
        rintro rfl
        exact hleaf habove
      rw [Function.update_of_ne hother, habove]

section put

variable {place other : Place} {name : String} {node : Option (Node β)}
variable (hplace : fs.node place = some .directory)
variable (hleaf : fs.node (place ++ [name]) ≠ some .directory)

@[simp] theorem node_put_self : (fs.put place name node hplace hleaf).node (place ++ [name]) = node :=
  Function.update_self ..

theorem node_put_of_ne (hother : other ≠ place ++ [name]) :
    (fs.put place name node hplace hleaf).node other = fs.node other :=
  Function.update_of_ne hother ..

end put

/-- The place is a directory. -/
def isDirectory (fs : FileSystem β) (place : Place) : Bool :=
  match fs.node place with
  | some .directory => true
  | _ => false

theorem isDirectory_iff {place : Place} :
    fs.isDirectory place = true ↔ fs.node place = some .directory := by
  unfold isDirectory
  split
  · simp_all
  · simp_all

/-- Put a node, or nothing, where a directory has no directory. -/
def update (fs : FileSystem β) (dir : Place) (name : String) (node : Option (Node β)) :
    FileSystem β :=
  if h : fs.isDirectory dir = true ∧ ¬fs.isDirectory (dir ++ [name]) = true then
    fs.put dir name node (isDirectory_iff.mp h.1) fun hdir => h.2 (isDirectory_iff.mpr hdir)
  else fs

section update

variable {dir place : Place} {name : String} {node : Option (Node β)}

theorem node_update_self (hdir : fs.node dir = some .directory)
    (hleaf : fs.node (dir ++ [name]) ≠ some .directory) :
    (fs.update dir name node).node (dir ++ [name]) = node := by
  have hboth : fs.isDirectory dir = true ∧ ¬fs.isDirectory (dir ++ [name]) = true :=
    ⟨isDirectory_iff.mpr hdir, fun h => hleaf (isDirectory_iff.mp h)⟩
  rw [update, dif_pos hboth, node_put_self]

theorem node_update_of_ne (hplace : place ≠ dir ++ [name]) :
    (fs.update dir name node).node place = fs.node place := by
  unfold update
  split
  · exact node_put_of_ne _ _ hplace
  · rfl

theorem update_of_ne_directory (hdir : fs.node dir ≠ some .directory) :
    fs.update dir name node = fs :=
  dif_neg fun h => hdir (isDirectory_iff.mp h.1)

end update

/-! ### What changes keep -/

/-- Everything that was there still is. -/
def Grows (fs fs' : FileSystem β) : Prop :=
  ∀ place node, fs.node place = some node → fs'.node place = some node

/-- Whatever was no file still is there: names lead where they led. -/
def KeepsPaths (fs fs' : FileSystem β) : Prop :=
  ∀ place node, fs.node place = some node → (∀ content, node ≠ .file content) →
    fs'.node place = some node

section keeps

variable {fs' fs'' : FileSystem β} {dir place p : Place} {name : String} {names : List String}
  {node : Option (Node β)} {links : ℕ}

theorem Grows.refl (fs : FileSystem β) : fs.Grows fs := fun _ _ h => h

theorem Grows.trans (h : fs.Grows fs') (h' : fs'.Grows fs'') : fs.Grows fs'' :=
  fun place node hnode => h' place node (h place node hnode)

theorem Grows.keepsPaths (h : fs.Grows fs') : fs.KeepsPaths fs' :=
  fun place node hnode _ => h place node hnode

theorem KeepsPaths.trans (h : fs.KeepsPaths fs') (h' : fs'.KeepsPaths fs'') : fs.KeepsPaths fs'' :=
  fun place node hnode hother => h' place node (h place node hnode hother) hother

/-- What appears where nothing was is no loss. -/
theorem grows_update (hnone : fs.node (dir ++ [name]) = none) :
    fs.Grows (fs.update dir name node) := by
  intro place node' hnode
  have hne : place ≠ dir ++ [name] := by
    rintro rfl
    rw [hnone] at hnode
    cases hnode
  rwa [node_update_of_ne hne]

/-- What was not known of is no loss either. -/
theorem Grows.update (h : fs.Grows fs') (hnone : fs.node (dir ++ [name]) = none) :
    fs.Grows (fs'.update dir name node) := by
  intro place node' hnode
  have hne : place ≠ dir ++ [name] := by
    rintro rfl
    rw [hnone] at hnode
    cases hnode
  rw [node_update_of_ne hne]
  exact h place node' hnode

theorem Grows.eq_none (h : fs.Grows fs') (hnone : fs'.node place = none) : fs.node place = none := by
  cases hnode : fs.node place with
  | none => rfl
  | some node =>
      rw [h place node hnode] at hnone
      cases hnone

/-- Changing a file, or a place with nothing, leads no name elsewhere. -/
theorem keepsPaths_update (hfile : ∀ node, fs.node (dir ++ [name]) = some node →
    ∃ content, node = .file content) : fs.KeepsPaths (fs.update dir name node) := by
  intro place node' hnode hother
  have hne : place ≠ dir ++ [name] := by
    rintro rfl
    obtain ⟨content, hcontent⟩ := hfile node' hnode
    exact hother content hcontent
  rwa [node_update_of_ne hne]

theorem KeepsPaths.directory (h : fs.KeepsPaths fs') (hdir : fs.node dir = some .directory) :
    fs'.node dir = some .directory :=
  h dir .directory hdir fun _ hne => by cases hne

theorem KeepsPaths.link (h : fs.KeepsPaths fs') {way : Bool × List String}
    (hlink : fs.link place = some way) : fs'.link place = some way := by
  unfold FileSystem.link at hlink
  split at hlink
  · next absolute target hnode =>
      have hnode' := h place _ hnode fun _ hne => by cases hne
      rw [FileSystem.link, hnode']
      exact hlink
  · cases hlink

theorem link_of_directory (hdir : fs.node dir = some .directory) : fs.link dir = none := by
  rw [FileSystem.link, hdir]

/-- Names that lead to a directory are followed from one. -/
theorem directory_start (h : fs.walk links place names = .ok p) (hp : fs.node p = some .directory) :
    fs.node place = some .directory := by
  cases names with
  | nil =>
      obtain rfl := Except.ok.inj (walk_nil.symm.trans h)
      exact hp
  | cons name rest => exact directory_of_walk h

/-- Names that lead to a directory go on leading there. -/
theorem KeepsPaths.walk (h : fs.KeepsPaths fs') (hwalk : fs.walk links place names = .ok p)
    (hp : fs.node p = some .directory) : fs'.walk links place names = .ok p := by
  have hstart := h.directory (directory_start hwalk hp)
  induction links, place, names using fs.follow_induction with
  | nil links place =>
      rw [walk_nil] at hwalk ⊢
      exact hwalk
  | stay links place name rest hstays ih =>
      rw [walk_stays (directory_of_walk hwalk) hstays] at hwalk
      rw [walk_stays hstart hstays]
      exact ih hwalk hstart
  | up links place rest ih =>
      rw [walk_up (directory_of_walk hwalk)] at hwalk
      rw [walk_up hstart]
      exact ih hwalk (h.directory (directory_start hwalk hp))
  | step links place name rest hstays hup hlink ih =>
      rw [walk_step (directory_of_walk hwalk) hstays hup hlink] at hwalk
      have hnext := h.directory (directory_start hwalk hp)
      rw [walk_step hstart hstays hup (link_of_directory hnext)]
      exact ih hwalk hnext
  | stuck place name rest absolute target hstays hup hlink =>
      rw [walk_stuck (directory_of_walk hwalk) hstays hup hlink] at hwalk
      cases hwalk
  | link links place name rest absolute target hstays hup hlink ih =>
      rw [walk_link (directory_of_walk hwalk) hstays hup hlink] at hwalk
      rw [walk_link hstart hstays hup (h.link hlink)]
      exact ih hwalk (h.directory (directory_start hwalk hp))

end keeps

/-- The directory that names lead to. -/
def directory (fs : FileSystem β) (links : ℕ) (names : List String) : Except WalkError Place :=
  match fs.walk links [] names with
  | .error error => .error error
  | .ok place =>
      if fs.isDirectory place then .ok place
      else .error (if (fs.node place).isNone then .notFound else .notADirectory)

theorem directory_eq_ok {links : ℕ} {names : List String} {dir : Place} :
    fs.directory links names = .ok dir ↔
      fs.walk links [] names = .ok dir ∧ fs.node dir = some .directory := by
  rw [← isDirectory_iff, directory]
  cases hwalk : fs.walk links [] names with
  | error error => simp
  | ok place =>
      dsimp only
      split
      case isTrue hplace =>
        constructor
        · intro h
          obtain rfl := Except.ok.inj h
          exact ⟨rfl, hplace⟩
        · exact fun h => h.1
      case isFalse hplace =>
        constructor
        · intro h
          cases h
        · rintro ⟨h, hdir⟩
          obtain rfl := Except.ok.inj h
          exact absurd hdir hplace

theorem KeepsPaths.directory_eq {fs' : FileSystem β} (h : fs.KeepsPaths fs') {links : ℕ}
    {names : List String} {dir : Place} (hdir : fs.directory links names = .ok dir) :
    fs'.directory links names = .ok dir := by
  obtain ⟨hwalk, hnode⟩ := directory_eq_ok.mp hdir
  exact directory_eq_ok.mpr ⟨h.walk hwalk hnode, h.directory hnode⟩

end FileSystem

end FileTree
