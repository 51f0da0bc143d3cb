import PersonalOS.FilesServer

/-! # Steps on the files

What one step of a call, or of another creator, does to the files, the lock and the record.

* **Steps.** `FilesStep` lists what a step may do; only a call that holds the write lock changes a
  file that is there.  The others leave a lock holder what it knows (`LeavesFiles`).
* **Contents.** Under a name that is not hidden, a step changes a content at once and as a whole,
  and remembers it (`ContentChange`).
* **Backups.** While a call holds the lock, the backup it made holds what it replaced
  (`BackupsKept`), if no backup it takes is the document itself (`BackupElsewhere`). -/

namespace PersonalOS

open FileTree FilesServer

/-- No leading dot. -/
def Visible (name : String) : Prop := name.startsWith "." = false

section steps

variable {τ : Type} (server : FilesServer)

/-- The path leads to a file with this content, in this directory. -/
structure HoldsFile (files : FileSystem Bytes) (path : PurePath) (dir : Place) (bytes : Bytes) :
    Prop where
  directory : files.directory server.maxLinks path.parentParts = .ok dir
  node : files.node (dir ++ [path.name]) = some (.file bytes)

/-- All that the call has put in place are backups. -/
def OnlyBackups (t : τ) (commits : List (Commit τ)) : Prop :=
  ∀ commit ∈ commits, commit.call = t → commit.purpose = .backup

/-- A rename puts a document in place; its backup, if it has one, holds what is replaced. -/
def Backed (files : FileSystem Bytes) (purpose : Purpose) (bytes : Bytes) : Prop :=
  ∃ backup, purpose = .document backup ∧ ∀ path, backup = some path →
    Visible path.name ∧ ∃ dir, HoldsFile server files path dir bytes

/-- What a step of `t` may do. -/
inductive FilesStep (processes : τ → FilesProcess) (t : τ) (s : FilesState τ) :
    FilesState τ → Prop where
  | quiet : FilesStep processes t s s
  | acquired : s.lock = none → (∀ commit ∈ s.commits, commit.call ≠ t) →
      FilesStep processes t s { s with lock := some t }
  | released : s.lock = some t → FilesStep processes t s { s with lock := none }
  | created (dir : Place) (name : String) (node : Node Bytes) :
      s.files.node (dir ++ [name]) = none → (node = .directory ∨ processes t = .creator) →
      FilesStep processes t s { s with files := s.files.update dir name (some node) }
  | temporary (dir : Place) (name : String) (node : Option (Node Bytes)) :
      s.lock = some t → ¬Visible name →
      (∀ old, s.files.node (dir ++ [name]) = some old → ∃ bytes, old = .file bytes) →
      FilesStep processes t s { s with files := s.files.update dir name node }
  | linked (commit : Commit τ) :
      s.lock = some t → commit.call = t → Visible commit.path.name →
      s.files.directory server.maxLinks commit.path.parentParts = .ok commit.dir →
      s.files.node commit.place = none → commit.before = none →
      (∀ path, commit.purpose ≠ .document (some path)) →
      FilesStep processes t s { s with
        files := s.files.update commit.dir commit.path.name (some (.file commit.after))
        commits := commit :: s.commits }
  | renamed (commit : Commit τ) (bytes : Bytes) (temp : String) :
      s.lock = some t → commit.call = t → Visible commit.path.name →
      HoldsFile server s.files commit.path commit.dir bytes → commit.before = some (.file bytes) →
      ¬Visible temp → s.files.node (commit.dir ++ [temp]) = some (.file commit.after) →
      OnlyBackups t s.commits → Backed server s.files commit.purpose bytes →
      FilesStep processes t s { s with
        files := (s.files.update commit.dir commit.path.name (some (.file commit.after))).update
          commit.dir temp none
        commits := commit :: s.commits }

end steps

section leaves

variable {τ : Type} {server : FilesServer} {processes : τ → FilesProcess} {t u : τ}
  {s s' s'' : FilesState τ}

/-- What the others leave to call `t`. -/
structure LeavesFiles (t : τ) (s s' : FilesState τ) : Prop where
  held : s.lock = some t → s'.lock = some t ∧ s.files.Grows s'.files
  notHeld : s.lock ≠ some t → s'.lock ≠ some t
  commits : ∀ commit, commit.call = t → (commit ∈ s'.commits ↔ commit ∈ s.commits)

theorem LeavesFiles.refl (s : FilesState τ) : LeavesFiles t s s where
  held h := ⟨h, .refl _⟩
  notHeld h := h
  commits _ _ := Iff.rfl

theorem LeavesFiles.trans (h : LeavesFiles t s s') (h' : LeavesFiles t s' s'') :
    LeavesFiles t s s'' where
  held hlock := by
    obtain ⟨hlock', hgrows⟩ := h.held hlock
    obtain ⟨hlock'', hgrows'⟩ := h'.held hlock'
    exact ⟨hlock'', hgrows.trans hgrows'⟩
  notHeld hlock := h'.notHeld (h.notHeld hlock)
  commits commit hcall := (h'.commits commit hcall).trans (h.commits commit hcall)

/-- A step that needs the lock leaves every other call alone. -/
theorem leavesFiles_of_lock (hne : t ≠ u) (hlock : s.lock = some u) (hlock' : s'.lock ≠ some t)
    (hcommits : ∀ commit, commit.call = t → (commit ∈ s'.commits ↔ commit ∈ s.commits)) :
    LeavesFiles t s s' where
  held h := absurd (Option.some.inj (h.symm.trans hlock)) hne
  notHeld _ := hlock'
  commits := hcommits

theorem FilesStep.leavesFiles (h : FilesStep server processes u s s') (hne : t ≠ u) :
    LeavesFiles t s s' := by
  have hother : some u ≠ some t := fun h => hne (Option.some.inj h).symm
  have hcommit : ∀ commit : Commit τ, commit.call = u → ∀ other : Commit τ, other.call = t →
      (other ∈ commit :: s.commits ↔ other ∈ s.commits) := by
    intro commit hcall other hcall'
    rw [List.mem_cons, or_iff_right]
    rintro rfl
    exact hne (hcall'.symm.trans hcall)
  cases h with
  | quiet => exact .refl s
  | acquired hfree hown =>
      refine ⟨fun hlock => ?_, fun _ => hother, fun _ _ => Iff.rfl⟩
      rw [hfree] at hlock
      cases hlock
  | released hlock => exact leavesFiles_of_lock hne hlock (by simp) fun _ _ => Iff.rfl
  | created dir name node hnone hnode =>
      exact ⟨fun hlock => ⟨hlock, FileSystem.grows_update hnone⟩, fun hlock => hlock,
        fun _ _ => Iff.rfl⟩
  | temporary dir name node hlock hname hold =>
      exact leavesFiles_of_lock hne hlock (hlock ▸ hother) fun _ _ => Iff.rfl
  | linked commit hlock hcall =>
      exact leavesFiles_of_lock hne hlock (hlock ▸ hother) (hcommit commit hcall)
  | renamed commit bytes temp hlock hcall =>
      exact leavesFiles_of_lock hne hlock (hlock ▸ hother) (hcommit commit hcall)

end leaves

/-! ### Contents -/

section contents

variable {τ : Type} {server : FilesServer} {processes : τ → FilesProcess} {t : τ}
  {s s' : FilesState τ}

/-- The step put a file in place, and remembered it. -/
structure PutInPlace (server : FilesServer) (s s' : FilesState τ) (commit : Commit τ) : Prop where
  recorded : s'.commits = commit :: s.commits
  directory : s.files.directory server.maxLinks commit.path.parentParts = .ok commit.dir
  before : s.files.node commit.place = commit.before
  after : s'.files.node commit.place = some (.file commit.after)

/-- What a step does to contents, and what it remembers. -/
structure ContentChange (server : FilesServer) (processes : τ → FilesProcess) (t : τ)
    (s s' : FilesState τ) : Prop where
  /-- Under a visible name a content stays, appears or is put in place by the step. -/
  contents : ∀ dir name, Visible name →
    s'.files.node (dir ++ [name]) = s.files.node (dir ++ [name]) ∨
    s.files.node (dir ++ [name]) = none ∧
      (s'.files.node (dir ++ [name]) = some .directory ∨ processes t = .creator) ∨
    ∃ commit, PutInPlace server s s' commit ∧ commit.call = t ∧ commit.place = dir ++ [name]
  /-- What is put in place replaces a whole file, or nothing; a backup replaces nothing. -/
  commits : s'.commits = s.commits ∨ ∃ commit, PutInPlace server s s' commit ∧ commit.call = t ∧
    Visible commit.path.name ∧
    (commit.before = none ∨
      commit.purpose ≠ .backup ∧ ∃ bytes, commit.before = some (.file bytes))

theorem ContentChange.refl (s : FilesState τ) : ContentChange server processes t s s where
  contents _ _ _ := .inl rfl
  commits := .inl rfl

theorem concat_ne {dir dir' : Place} {name name' : String} (h : name ≠ name') :
    dir ++ [name] ≠ dir' ++ [name'] := by
  intro heq
  have hlast := (List.append_inj' heq rfl).2
  exact h (List.singleton_inj.mp hlast)

theorem ne_of_visible {name temp : String} (h : Visible name) (htemp : ¬Visible temp) :
    name ≠ temp := by
  rintro rfl
  exact htemp h

/-- A linked file is in place. -/
theorem putInPlace_linked {commit : Commit τ}
    (hdir : s.files.directory server.maxLinks commit.path.parentParts = .ok commit.dir)
    (hnone : s.files.node commit.place = none) (hbefore : commit.before = none) :
    PutInPlace server s { s with
      files := s.files.update commit.dir commit.path.name (some (.file commit.after))
      commits := commit :: s.commits } commit where
  recorded := rfl
  directory := hdir
  before := hnone.trans hbefore.symm
  after := by
    refine FileSystem.node_update_self (FileSystem.directory_eq_ok.mp hdir).2 ?_
    show s.files.node commit.place ≠ some .directory
    rw [hnone]
    simp

/-- The files after a rename. -/
def Commit.renamedFiles (files : FileSystem Bytes) (commit : Commit τ) (temp : String) :
    FileSystem Bytes :=
  (files.update commit.dir commit.path.name (some (.file commit.after))).update commit.dir temp none

theorem node_renamedFiles {files : FileSystem Bytes} {commit : Commit τ} {temp : String}
    {place : Place} (hplace : place ≠ commit.place) (htemp : place ≠ commit.dir ++ [temp]) :
    (commit.renamedFiles files temp).node place = files.node place := by
  rw [Commit.renamedFiles, FileSystem.node_update_of_ne htemp, FileSystem.node_update_of_ne hplace]

theorem keepsPaths_renamedFiles {files : FileSystem Bytes} {commit : Commit τ} {temp : String}
    {bytes : Bytes} (hvisible : Visible commit.path.name) (htemp : ¬Visible temp)
    (hnode : files.node commit.place = some (.file bytes))
    (hfile : files.node (commit.dir ++ [temp]) = some (.file commit.after)) :
    files.KeepsPaths (commit.renamedFiles files temp) := by
  have hne : commit.dir ++ [temp] ≠ commit.dir ++ [commit.path.name] :=
    concat_ne (ne_of_visible hvisible htemp).symm
  have hfirst : files.KeepsPaths
      (files.update commit.dir commit.path.name (some (.file commit.after))) := by
    refine FileSystem.keepsPaths_update fun node h => ⟨bytes, ?_⟩
    exact Option.some.inj (h.symm.trans hnode)
  refine hfirst.trans (FileSystem.keepsPaths_update fun node h => ⟨commit.after, ?_⟩)
  rw [FileSystem.node_update_of_ne hne] at h
  exact Option.some.inj (h.symm.trans hfile)

/-- A renamed file is in place. -/
theorem putInPlace_renamed {commit : Commit τ} {bytes : Bytes} {temp : String}
    (hvisible : Visible commit.path.name)
    (hholds : HoldsFile server s.files commit.path commit.dir bytes)
    (hbefore : commit.before = some (.file bytes)) (htemp : ¬Visible temp) :
    PutInPlace server s { s with
      files := commit.renamedFiles s.files temp
      commits := commit :: s.commits } commit where
  recorded := rfl
  directory := hholds.directory
  before := hholds.node.trans hbefore.symm
  after := by
    have hne : commit.place ≠ commit.dir ++ [temp] := concat_ne (ne_of_visible hvisible htemp)
    show (commit.renamedFiles s.files temp).node commit.place = _
    rw [Commit.renamedFiles, FileSystem.node_update_of_ne hne]
    refine FileSystem.node_update_self (FileSystem.directory_eq_ok.mp hholds.directory).2 ?_
    rw [hholds.node]
    simp

theorem FilesStep.contentChange (h : FilesStep server processes t s s') :
    ContentChange server processes t s s' := by
  cases h with
  | quiet => exact .refl s
  | acquired hfree hown => exact ⟨fun _ _ _ => .inl rfl, .inl rfl⟩
  | released hlock => exact ⟨fun _ _ _ => .inl rfl, .inl rfl⟩
  | created dir name node hnone hnode =>
      refine ⟨fun dir' name' _ => ?_, .inl rfl⟩
      by_cases heq : dir' ++ [name'] = dir ++ [name]
      · rw [heq]
        rcases hnode with rfl | hcreator
        · by_cases hdir : s.files.node dir = some .directory
          · refine .inr (.inl ⟨hnone, .inl (FileSystem.node_update_self hdir ?_)⟩)
            rw [hnone]
            simp
          · left
            rw [FileSystem.update_of_ne_directory hdir]
        · exact .inr (.inl ⟨hnone, .inr hcreator⟩)
      · exact .inl (FileSystem.node_update_of_ne heq)
  | temporary dir name node hlock hname hold =>
      refine ⟨fun dir' name' hvisible => .inl ?_, .inl rfl⟩
      exact FileSystem.node_update_of_ne (concat_ne (ne_of_visible hvisible hname))
  | linked commit hlock hcall hvisible hdir hnone hbefore hpurpose =>
      have hput := putInPlace_linked hdir hnone hbefore
      refine ⟨fun dir' name' _ => ?_, .inr ⟨commit, hput, hcall, hvisible, .inl hbefore⟩⟩
      by_cases heq : dir' ++ [name'] = commit.place
      · exact .inr (.inr ⟨commit, hput, hcall, heq.symm⟩)
      · exact .inl (FileSystem.node_update_of_ne heq)
  | renamed commit bytes temp hlock hcall hvisible hholds hbefore htemp hfile hown hbacked =>
      have hput := putInPlace_renamed hvisible hholds hbefore htemp
      have hpurpose : commit.purpose ≠ .backup := by
        obtain ⟨backup, hdocument, -⟩ := hbacked
        rw [hdocument]
        simp
      refine ⟨fun dir' name' hvisible' => ?_,
        .inr ⟨commit, hput, hcall, hvisible, .inr ⟨hpurpose, bytes, hbefore⟩⟩⟩
      by_cases heq : dir' ++ [name'] = commit.place
      · exact .inr (.inr ⟨commit, hput, hcall, heq.symm⟩)
      · exact .inl (node_renamedFiles heq (concat_ne (ne_of_visible hvisible' htemp)))

end contents

/-! ### Backups -/

section backups

variable {τ : Type} {server : FilesServer} {processes : τ → FilesProcess} {t u : τ}
  {s s' : FilesState τ}

/-- The backup of a document put in place does not lead to the document itself. -/
def BackupElsewhere (server : FilesServer) (s s' : FilesState τ) : Prop :=
  ∀ commit backup dir, s'.commits = commit :: s.commits →
    commit.purpose = .document (some backup) →
    s.files.directory server.maxLinks backup.parentParts = .ok dir →
    dir ++ [backup.name] ≠ commit.place

/-- The backup of what a document replaced holds it. -/
def BackupKept (server : FilesServer) (files : FileSystem Bytes) (commit : Commit τ)
    (backup : PurePath) : Prop :=
  Visible backup.name ∧ ∃ dir bytes, commit.before = some (.file bytes) ∧
    HoldsFile server files backup dir bytes

/-- While a call holds the lock, the backup of what it replaced holds it. -/
def BackupsKept (server : FilesServer) (s : FilesState τ) : Prop :=
  ∀ commit ∈ s.commits, s.lock = some commit.call →
    ∀ backup, commit.purpose = .document (some backup) → BackupKept server s.files commit backup

theorem HoldsFile.keeps {files files' : FileSystem Bytes} {path : PurePath} {dir : Place}
    {bytes : Bytes} (h : HoldsFile server files path dir bytes) (hpaths : files.KeepsPaths files')
    (hnode : files'.node (dir ++ [path.name]) = files.node (dir ++ [path.name])) :
    HoldsFile server files' path dir bytes where
  directory := hpaths.directory_eq h.directory
  node := hnode.trans h.node

theorem HoldsFile.grows {files files' : FileSystem Bytes} {path : PurePath} {dir : Place}
    {bytes : Bytes} (h : HoldsFile server files path dir bytes) (hgrows : files.Grows files') :
    HoldsFile server files' path dir bytes where
  directory := hgrows.keepsPaths.directory_eq h.directory
  node := hgrows _ _ h.node

theorem BackupKept.grows {files files' : FileSystem Bytes} {commit : Commit τ} {backup : PurePath}
    (h : BackupKept server files commit backup) (hgrows : files.Grows files') :
    BackupKept server files' commit backup := by
  obtain ⟨hvisible, dir, bytes, hbefore, hholds⟩ := h
  exact ⟨hvisible, dir, bytes, hbefore, hholds.grows hgrows⟩

/-- Every step that puts documents in place whose backups are elsewhere keeps the backups. -/
theorem FilesStep.backupsKept (h : FilesStep server processes t s s')
    (helsewhere : BackupElsewhere server s s') (hkept : BackupsKept server s) :
    BackupsKept server s' := by
  cases h with
  | quiet => exact hkept
  | acquired hfree hown =>
      intro commit hcommit hlock
      exact absurd (Option.some.inj hlock).symm (hown commit hcommit)
  | released hlock =>
      intro commit hcommit hlock'
      cases hlock'
  | created dir name node hnone hnode =>
      intro commit hcommit hlock backup hbackup
      exact (hkept commit hcommit hlock backup hbackup).grows (FileSystem.grows_update hnone)
  | temporary dir name node hlock hname hold =>
      intro commit hcommit hlock' backup hbackup
      obtain ⟨hvisible, dir', bytes, hbefore, hholds⟩ := hkept commit hcommit hlock' backup hbackup
      refine ⟨hvisible, dir', bytes, hbefore, hholds.keeps ?_ ?_⟩
      · exact FileSystem.keepsPaths_update hold
      · exact FileSystem.node_update_of_ne (concat_ne (ne_of_visible hvisible hname))
  | linked commit hlock hcall hvisible hdir hnone hbefore hpurpose =>
      intro other hother hlock' backup hbackup
      rcases List.mem_cons.mp hother with rfl | hother
      · exact absurd hbackup (hpurpose backup)
      · exact (hkept other hother hlock' backup hbackup).grows (FileSystem.grows_update hnone)
  | renamed commit bytes temp hlock hcall hvisible hholds hbefore htemp hfile hown hbacked =>
      intro other hother hlock' backup hbackup
      rcases List.mem_cons.mp hother with rfl | hother
      · obtain ⟨backup', hpurpose, hbackedUp⟩ := hbacked
        obtain rfl : backup' = some backup := by simpa [hpurpose] using hbackup
        obtain ⟨hname, dir, hbackup'⟩ := hbackedUp backup rfl
        refine ⟨hname, dir, bytes, hbefore, hbackup'.keeps ?_ ?_⟩
        · exact keepsPaths_renamedFiles hvisible htemp hholds.node hfile
        · refine node_renamedFiles ?_ (concat_ne (ne_of_visible hname htemp))
          exact helsewhere other backup dir rfl hbackup hbackup'.directory
      · have hsame : other.call = t := by
          have h : s.lock = some other.call := hlock'
          exact Option.some.inj (h.symm.trans hlock)
        have := hown other hother hsame
        rw [hbackup] at this
        cases this

end backups

end PersonalOS
