import PersonalOS.FileSteps
import PersonalOS.Pool
import PersonalOS.SandboxConfinement

/-! # No update through the file tools is lost

Calls of `write_file` and `overwrite_document` on one server, and other creators, interleaved step by
step.

* **Contracts.** `Working` is what a call knows while it holds the lock.  One lemma for each operation
  says what it makes of that; `process_updates` says that every process keeps its contract.
* **Runs.** `updates_kept` collects what holds of every interleaving. -/

namespace PersonalOS

open Concurrent Concurrent.Prog FileTree FilesServer

variable {τ : Type}

/-- A lock that is held is not taken. -/
def LockRespected (s s' : FilesState τ) : Prop :=
  ∀ t, s'.lock = some t → s.lock = some t ∨ s.lock = none

def filesContract (server : FilesServer) (processes : τ → FilesProcess) (t : τ) :
    Contract (FilesState τ) where
  rely := LeavesFiles t
  guar := FilesStep server processes t
  assume := LockRespected
  rely_refl := .refl
  rely_trans := .trans

/-- What a call that holds the lock knows: files that stay, and what it has put in place. -/
structure Working (t : τ) (known : FileSystem Bytes) (own : List (Commit τ)) (s : FilesState τ) :
    Prop where
  lock : s.lock = some t
  grows : known.Grows s.files
  own : ∀ commit, commit.call = t → (commit ∈ s.commits ↔ commit ∈ own)

/-- What is so when a call raises: unless removing a temporary file failed, no document was put in
place. -/
def Unwritten (t : τ) (error : FilesError) (s : FilesState τ) : Prop :=
  error ≠ .cleanupFailed → OnlyBackups t s.commits

/-- The same while the lock is held. -/
def FailedLocked (t : τ) (error : FilesError) (s : FilesState τ) : Prop :=
  s.lock = some t ∧ Unwritten t error s

section operations

variable {server : FilesServer} {processes : τ → FilesProcess} {t : τ} {s s' : FilesState τ}
  {known : FileSystem Bytes} {own : List (Commit τ)} {α β : Type}

theorem Working.leaves (h : Working t known own s) (hs : LeavesFiles t s s') :
    Working t known own s' where
  lock := (hs.held h.lock).1
  grows := h.grows.trans (hs.held h.lock).2
  own commit hcall := (hs.commits commit hcall).trans (h.own commit hcall)

/-- What is there now may be counted on. -/
theorem Working.now (h : Working t known own s) : Working t s.files own s where
  lock := h.lock
  grows := .refl _
  own := h.own

theorem Working.onlyBackups (h : Working t known own s) (hown : OnlyBackups t own) :
    OnlyBackups t s.commits :=
  fun commit hcommit hcall => hown commit ((h.own commit hcall).mp hcommit) hcall

theorem Working.failed (h : Working t known own s) (hown : OnlyBackups t own) (error : FilesError) :
    FailedLocked t error s :=
  ⟨h.lock, fun _ => h.onlyBackups hown⟩

theorem OnlyBackups.leaves (h : OnlyBackups t s.commits) (hs : LeavesFiles t s s') :
    OnlyBackups t s'.commits :=
  fun commit hcommit hcall => h commit ((hs.commits commit hcall).mp hcommit) hcall

theorem FailedLocked.leaves {error : FilesError} (h : FailedLocked t error s)
    (hs : LeavesFiles t s s') : FailedLocked t error s' :=
  ⟨(hs.held h.1).1, fun hne => (h.2 hne).leaves hs⟩

variable {Q : α → FilesState τ → Prop} {E : FilesError → FilesState τ → Prop}

/-- A step that only looks. -/
theorem wp_lookAt {f : FilesInput → FilesState τ → β} {k : β → FilesProgram τ α}
    (h : ∀ s' i, LeavesFiles t s s' →
      (k (f i s')).wp (filesContract server processes t) Q E s') :
    (act (fun i s => (f i s, s)) >>= k).wp (filesContract server processes t) Q E s :=
  fun s' hs i _ => ⟨.quiet, h s' i hs⟩

theorem wp_raise_working (h : Working t known own s) (hown : OnlyBackups t own)
    (error : FilesError) :
    (raise error : FilesProgram τ α).wp (filesContract server processes t) Q (FailedLocked t) s :=
  fun _ hs => (h.leaves hs).failed hown error

/-! ### Looking -/

/-- A resolved path has a visible name. -/
theorem visible_of_resolve {requested : String} {path : PurePath}
    {realpath : List String → List String}
    (h : server.sandbox.resolve server.casefold realpath requested = .ok path) :
    Visible path.name := by
  obtain ⟨-, root, -, below, rfl, hne, hparts⟩ := PathSandbox.resolved_of_eq_ok h
  have hlast : (root.parts ++ below).getLastD "" = below.getLast hne := by
    rw [List.getLastD_eq_getLast?, List.getLast?_append_of_ne_nil _ hne,
      List.getLast?_eq_some_getLast hne, Option.getD_some]
  have hallowed := hparts _ (List.getLast_mem hne)
  rw [PathSandbox.isDenied, Bool.or_eq_false_iff] at hallowed
  rw [Visible, PurePath.name, hlast]
  exact hallowed.1

theorem resolve_wp {W : FilesState τ → Prop} (hW : ∀ s s', LeavesFiles t s s' → W s → W s')
    (hE : ∀ s error, W s → E error s) (h : W s) (requested : String) :
    (server.resolve requested : FilesProgram τ PurePath).wp (filesContract server processes t)
      (fun path s => W s ∧ Visible path.name) E s := by
  refine wp_lookAt fun s' i hs => ?_
  have hs' := hW s s' hs h
  dsimp only
  cases hpath : server.sandbox.resolve server.casefold i.realpath requested with
  | ok path => exact fun s'' hs'' => ⟨hW s' s'' hs'' hs', visible_of_resolve hpath⟩
  | error reason => exact fun s'' hs'' => hE s'' _ (hW s' s'' hs'' hs')

theorem holdsFile_of_openFile {target : PurePath} {i : FilesInput} {bytes : Bytes}
    (h : server.openFile target i s = .content bytes) :
    ∃ dir, HoldsFile server s.files target dir bytes := by
  unfold openFile at h
  split at h
  · cases h
  split at h
  · cases h
  · cases h
  next dir hdir =>
  split at h
  · cases h
  · cases h
  · next bytes' hnode =>
      split at h
      · cases h
      · obtain rfl := Opened.content.inj h
        exact ⟨dir, hdir, hnode⟩
  · cases h

/-- What reading a file says of it. -/
theorem readBytes_wp (h : Working t known own s) (hown : OnlyBackups t own) (target : PurePath)
    (requested : String) :
    (server.readBytes target requested : FilesProgram τ (Option Bytes)).wp
      (filesContract server processes t)
      (fun current s => ∃ now, known.Grows now ∧ Working t now own s ∧
        ∀ bytes, current = some bytes → ∃ dir, HoldsFile server now target dir bytes)
      (FailedLocked t) s := by
  refine wp_lookAt fun s₁ i hs₁ => ?_
  have h₁ := h.leaves hs₁
  cases hopened : server.openFile target i s₁ with
  | missing =>
      refine fun s₂ hs₂ => ⟨known, .refl _, h₁.leaves hs₂, fun bytes hbytes => ?_⟩
      cases hbytes
  | refused => exact wp_raise_working h₁ hown _
  | notRegular => exact wp_raise_working h₁ hown _
  | unreadable => exact wp_raise_working h₁ hown _
  | content bytes =>
      dsimp only
      split
      · exact wp_raise_working h₁ hown _
      · refine fun s₂ hs₂ => ⟨s₁.files, h₁.grows, h₁.now.leaves hs₂, fun bytes' hbytes => ?_⟩
        obtain rfl := Option.some.inj hbytes
        exact holdsFile_of_openFile hopened

/-! ### Making directories -/

theorem mkdirExistOk_wp (h : Working t known own s) (hown : OnlyBackups t own)
    (names : List String) {onNoParent : FilesProgram τ Unit}
    (hparent : ∀ s', Working t known own s' → onNoParent.wp (filesContract server processes t)
      (fun _ => Working t known own) (FailedLocked t) s') :
    (server.mkdirExistOk names onNoParent).wp (filesContract server processes t)
      (fun _ => Working t known own) (FailedLocked t) s := by
  have hfailed : ∀ s', Working t known own s' →
      ((act fun i s => (server.isDir names i s, s) : FilesProgram τ Bool) >>= fun dir =>
        if dir = true then ret () else raise .osError).wp (filesContract server processes t)
        (fun _ => Working t known own) (FailedLocked t) s' := by
    intro s₁ h₁
    refine wp_lookAt fun s₂ i hs₂ => ?_
    split
    · exact fun s₃ hs₃ => (h₁.leaves hs₂).leaves hs₃
    · exact wp_raise_working (h₁.leaves hs₂) hown _
  intro s₁ hs₁ i _
  have h₁ := h.leaves hs₁
  unfold mkdir
  split
  · exact ⟨.quiet, hfailed s₁ h₁⟩
  split
  · exact ⟨.quiet, hparent s₁ h₁⟩
  · exact ⟨.quiet, hfailed s₁ h₁⟩
  next dir hdir =>
  dsimp only
  split
  · next hnone =>
      refine ⟨.created dir _ _ hnone (.inl rfl), fun s₂ hs₂ => Working.leaves ?_ hs₂⟩
      exact ⟨h₁.lock, h₁.grows.trans (FileSystem.grows_update hnone), h₁.own⟩
  · exact ⟨.quiet, hfailed s₁ h₁⟩

theorem mkdirParents_wp (hown : OnlyBackups t own) (length : ℕ) (names : List String)
    (h : Working t known own s) :
    (server.mkdirParents length names).wp (filesContract server processes t)
      (fun _ => Working t known own) (FailedLocked t) s := by
  have hraise : ∀ s', Working t known own s' →
      (raise .osError : FilesProgram τ Unit).wp (filesContract server processes t)
        (fun _ => Working t known own) (FailedLocked t) s' :=
    fun s' h' => wp_raise_working h' hown _
  induction length generalizing names s with
  | zero => exact mkdirExistOk_wp h hown names hraise
  | succ length ih =>
      refine mkdirExistOk_wp h hown names fun s₁ h₁ => wp_bind ?_
      refine wp_mono (ih names.dropLast h₁) (fun _ s₂ h₂ => ?_) fun _ _ h => h
      exact mkdirExistOk_wp h₂ hown names hraise

/-! ### Replacing -/

/-- A call that holds the lock has a temporary file. -/
structure HasTemp (server : FilesServer) (t : τ) (target : PurePath) (known : FileSystem Bytes)
    (own : List (Commit τ)) (dir : Place) (temp : String) (content : Bytes) (s : FilesState τ) :
    Prop extends Working t known own s where
  directory : s.files.directory server.maxLinks target.parentParts = .ok dir
  node : s.files.node (dir ++ [temp]) = some (.file content)
  fresh : known.node (dir ++ [temp]) = none
  hidden : ¬Visible temp

section temp

variable {target : PurePath} {dir : Place} {temp : String} {content data : Bytes}

theorem HasTemp.leaves (h : HasTemp server t target known own dir temp content s)
    (hs : LeavesFiles t s s') : HasTemp server t target known own dir temp content s' where
  toWorking := h.toWorking.leaves hs
  directory := (hs.held h.lock).2.keepsPaths.directory_eq h.directory
  node := (hs.held h.lock).2 _ _ h.node
  fresh := h.fresh
  hidden := h.hidden

theorem HasTemp.isFile (h : HasTemp server t target known own dir temp content s) :
    ∀ old, s.files.node (dir ++ [temp]) = some old → ∃ bytes, old = .file bytes :=
  fun _ hold => ⟨content, Option.some.inj (hold.symm.trans h.node)⟩

theorem HasTemp.write (h : HasTemp server t target known own dir temp content s) (data : Bytes) :
    HasTemp server t target known own dir temp data
      { s with files := s.files.update dir temp (some (.file data)) } where
  lock := h.lock
  grows := h.grows.update h.fresh
  own := h.own
  directory := (FileSystem.keepsPaths_update h.isFile).directory_eq h.directory
  node := by
    refine FileSystem.node_update_self (FileSystem.directory_eq_ok.mp h.directory).2 ?_
    rw [h.node]
    simp
  fresh := h.fresh
  hidden := h.hidden

theorem HasTemp.remove (h : HasTemp server t target known own dir temp content s) :
    Working t known own { s with files := s.files.update dir temp none } where
  lock := h.lock
  grows := h.grows.update h.fresh
  own := h.own

theorem not_visible_tempName (i : FilesInput) : ¬Visible (tempName i) := by
  have hdot : (tempName i).startsWith "." = true := by
    rw [String.startsWith_string_iff, tempName, String.toList_append, String.toList_append]
    exact ⟨"personalos-".toList ++ i.tempName.toList ++ ".tmp".toList, rfl⟩
  rw [Visible, hdot]
  exact Bool.noConfusion

/-- A new temporary file, or none. -/
theorem mkstemp_wp (h : Working t known own s) {k : Option (Place × String) → FilesProgram τ α}
    (hnone : ∀ s', Working t known own s' →
      (k none).wp (filesContract server processes t) Q E s')
    (hsome : ∀ dir temp s', HasTemp server t target known own dir temp [] s' →
      (k (some (dir, temp))).wp (filesContract server processes t) Q E s') :
    (act (server.mkstemp target) >>= k).wp (filesContract server processes t) Q E s := by
  intro s₁ hs₁ i _
  have h₁ := h.leaves hs₁
  unfold mkstemp
  split
  · exact ⟨.quiet, hnone s₁ h₁⟩
  split
  · exact ⟨.quiet, hnone s₁ h₁⟩
  next dir hdir =>
  split
  · exact ⟨.quiet, hnone s₁ h₁⟩
  next hfree =>
  have hold : ∀ old, s₁.files.node (dir ++ [tempName i]) = some old → ∃ bytes, old = .file bytes := by
    intro old hnode
    rw [hfree] at hnode
    cases hnode
  refine ⟨.temporary dir _ _ h₁.lock (not_visible_tempName i) hold, hsome _ _ _ ?_⟩
  refine ⟨⟨h₁.lock, h₁.grows.trans (FileSystem.grows_update hfree), h₁.own⟩, ?_, ?_,
    h₁.grows.eq_none hfree, not_visible_tempName i⟩
  · exact (FileSystem.grows_update hfree).keepsPaths.directory_eq hdir
  · refine FileSystem.node_update_self (FileSystem.directory_eq_ok.mp hdir).2 ?_
    rw [hfree]
    simp

theorem writeTemp_wp (h : HasTemp server t target known own dir temp content s)
    {k : Bool → FilesProgram τ α}
    (hk : ∀ written ok s', HasTemp server t target known own dir temp written s' →
      (ok = true → written = data) → (k ok).wp (filesContract server processes t) Q E s') :
    (act (writeTemp dir temp data) >>= k).wp (filesContract server processes t) Q E s := by
  intro s₁ hs₁ i _
  have h₁ := h.leaves hs₁
  refine ⟨.temporary dir temp _ h₁.lock h₁.hidden h₁.isFile, hk _ _ _ (h₁.write _) fun hok => ?_⟩
  have hnot : (!i.fails) = true := hok
  have hfails : i.fails = false := by simpa using hnot
  rw [hfails]
  rfl

/-- Removing the temporary file, which may fail. -/
theorem removeTemp_wp (h : HasTemp server t target known own dir temp content s) :
    (server.removeTemp target temp : FilesProgram τ Unit).wp (filesContract server processes t)
      (fun _ => Working t known own) (FailedLocked t) s := by
  intro s₁ hs₁ i _
  have h₁ := h.leaves hs₁
  have hfailed : (raise .cleanupFailed : FilesProgram τ Unit).wp
      (filesContract server processes t) (fun _ => Working t known own) (FailedLocked t) s₁ :=
    fun s₂ hs₂ => ⟨(h₁.leaves hs₂).lock, fun hne => absurd rfl hne⟩
  unfold unlink
  split
  · exact ⟨.quiet, hfailed⟩
  rw [h₁.directory]
  dsimp only
  rw [h₁.node]
  refine ⟨.temporary dir temp none h₁.lock h₁.hidden h₁.isFile, fun s₂ hs₂ => ?_⟩
  exact h₁.remove.leaves hs₂

/-- The temporary file linked to the target, and known there. -/
theorem HasTemp.linked (h : HasTemp server t target known own dir temp data s)
    (hvisible : Visible target.name) (hnone : s.files.node (dir ++ [target.name]) = none)
    (purpose : Purpose) :
    ∃ now, known.Grows now ∧ HoldsFile server now target dir data ∧
      HasTemp server t target now (⟨t, target, dir, none, data, purpose⟩ :: own) dir temp data
        { s with
          files := s.files.update dir target.name (some (.file data))
          commits := ⟨t, target, dir, none, data, purpose⟩ :: s.commits } := by
  have hgrows : s.files.Grows (s.files.update dir target.name (some (.file data))) :=
    FileSystem.grows_update hnone
  have hdir := hgrows.keepsPaths.directory_eq h.directory
  have hnode := hgrows _ _ h.node
  have hne : dir ++ [target.name] ≠ dir ++ [temp] := concat_ne (ne_of_visible hvisible h.hidden)
  have hfile : ∀ node, (s.files.update dir target.name (some (.file data))).node (dir ++ [temp])
      = some node → ∃ content, node = .file content :=
    fun node hsome => ⟨data, Option.some.inj (hsome.symm.trans hnode)⟩
  have hgone : ((s.files.update dir target.name (some (.file data))).update dir temp none).node
      (dir ++ [temp]) = none := by
    refine FileSystem.node_update_self (FileSystem.directory_eq_ok.mp hdir).2 ?_
    rw [hnode]
    simp
  refine ⟨(s.files.update dir target.name (some (.file data))).update dir temp none,
    (h.grows.trans hgrows).update h.fresh, ⟨?_, ?_⟩, ⟨h.lock, ?_, ?_⟩, hdir, hnode, hgone,
    h.hidden⟩
  · exact (FileSystem.keepsPaths_update hfile).directory_eq hdir
  · rw [FileSystem.node_update_of_ne hne]
    refine FileSystem.node_update_self (FileSystem.directory_eq_ok.mp h.directory).2 ?_
    rw [hnone]
    simp
  · intro place node hsome
    have hplace : place ≠ dir ++ [temp] := by
      rintro rfl
      rw [hgone] at hsome
      cases hsome
    rwa [FileSystem.node_update_of_ne hplace] at hsome
  · intro commit hcall
    rw [List.mem_cons, List.mem_cons, h.own commit hcall]

/-- Linking: the target is there, or the temporary file still is all there is. -/
theorem link_wp (h : HasTemp server t target known own dir temp data s)
    (hvisible : Visible target.name) {purpose : Purpose}
    (hpurpose : ∀ path, purpose ≠ .document (some path)) {k : Moved → FilesProgram τ α}
    (hdone : ∀ now s', known.Grows now → HoldsFile server now target dir data →
      HasTemp server t target now (⟨t, target, dir, none, data, purpose⟩ :: own) dir temp data s' →
      (k .done).wp (filesContract server processes t) Q E s')
    (hother : ∀ moved s', HasTemp server t target known own dir temp data s' →
      moved ≠ .done → (k moved).wp (filesContract server processes t) Q E s') :
    (act (server.link t target temp purpose) >>= k).wp (filesContract server processes t) Q E s := by
  intro s₁ hs₁ i _
  have h₁ := h.leaves hs₁
  unfold FilesServer.link
  split
  · exact ⟨.quiet, hother _ _ h₁ (by simp)⟩
  rw [h₁.directory]
  dsimp only
  rw [h₁.node]
  cases hnode : s₁.files.node (dir ++ [target.name]) with
  | some node => exact ⟨.quiet, hother _ _ h₁ (by simp)⟩
  | none =>
      obtain ⟨now, hgrows, hholds, htemp⟩ := h₁.linked hvisible hnode purpose
      refine ⟨?_, hdone now _ hgrows hholds htemp⟩
      exact .linked ⟨t, target, dir, none, data, purpose⟩ h₁.lock rfl hvisible h₁.directory hnode rfl
        hpurpose

/-- Renaming over a known version: the document is put in place, or the temporary file still is all
there is. -/
theorem rename_wp (h : HasTemp server t target known own dir temp data s)
    (hvisible : Visible target.name) {purpose : Purpose} {dir' : Place} {bytes : Bytes}
    (hown : OnlyBackups t own) (hholds : HoldsFile server known target dir' bytes)
    (hbacked : Backed server known purpose bytes) {k : Moved → FilesProgram τ α}
    (hdone : ∀ s', s'.lock = some t →
      ⟨t, target, dir', some (.file bytes), data, purpose⟩ ∈ s'.commits →
      (k .done).wp (filesContract server processes t) Q E s')
    (hother : ∀ moved s', HasTemp server t target known own dir temp data s' →
      moved ≠ .done → (k moved).wp (filesContract server processes t) Q E s') :
    (act (server.rename t target temp purpose) >>= k).wp (filesContract server processes t) Q E
      s := by
  intro s₁ hs₁ i _
  have h₁ := h.leaves hs₁
  have hholds₁ := hholds.grows h₁.grows
  obtain rfl : dir' = dir := Except.ok.inj (hholds₁.directory.symm.trans h₁.directory)
  have hdir : s₁.files.isDirectory (dir' ++ [target.name]) = false := by
    rw [FileSystem.isDirectory, hholds₁.node]
  unfold FilesServer.rename
  split
  · exact ⟨.quiet, hother _ _ h₁ (by simp)⟩
  rw [h₁.directory]
  dsimp only
  rw [h₁.node, hdir, hholds₁.node]
  refine ⟨.renamed ⟨t, target, dir', some (.file bytes), data, purpose⟩ bytes temp h₁.lock rfl
    hvisible hholds₁ rfl h₁.hidden h₁.node (h₁.onlyBackups hown) ?_, ?_⟩
  · obtain ⟨backup, hpurpose, hbackup⟩ := hbacked
    refine ⟨backup, hpurpose, fun path hpath => ?_⟩
    obtain ⟨hname, dir'', hdir''⟩ := hbackup path hpath
    exact ⟨hname, dir'', hdir''.grows h₁.grows⟩
  · exact hdone _ h₁.lock List.mem_cons_self

end temp

/-- Replacing where nothing is: the new file is there, and nothing else was put in place. -/
theorem replaceAtomically_create_wp (h : Working t known own s) (hown : OnlyBackups t own)
    {target : PurePath} (hvisible : Visible target.name) (data : Bytes) (requested : String)
    {purpose : Purpose} (hpurpose : ∀ path, purpose ≠ .document (some path)) :
    (server.replaceAtomically t target data requested true purpose).wp
      (filesContract server processes t)
      (fun _ s => ∃ now dir, known.Grows now ∧ HoldsFile server now target dir data ∧
        Working t now (⟨t, target, dir, none, data, purpose⟩ :: own) s)
      (FailedLocked t) s := by
  refine mkstemp_wp h (fun s₁ h₁ => wp_raise_working h₁ hown _) fun dir temp s₁ h₁ => ?_
  have hmove : (server.writeAndMove t target data requested true purpose dir temp).wp
      (filesContract server processes t)
      (fun _ s => ∃ now, known.Grows now ∧ HoldsFile server now target dir data ∧
        HasTemp server t target now (⟨t, target, dir, none, data, purpose⟩ :: own) dir temp data s)
      (fun _ s => ∃ content, HasTemp server t target known own dir temp content s) s₁ := by
    refine writeTemp_wp h₁ fun written ok s₂ h₂ hwritten => ?_
    cases ok with
    | false => exact fun s₃ hs₃ => ⟨written, h₂.leaves hs₃⟩
    | true =>
        obtain rfl := hwritten rfl
        refine link_wp h₂ hvisible hpurpose (fun now s₃ hgrows hholds h₃ => ?_)
          fun moved s₃ h₃ hmoved => ?_
        · exact fun s₄ hs₄ => ⟨now, hgrows, hholds, h₃.leaves hs₄⟩
        · cases moved with
          | done => exact absurd rfl hmoved
          | occupied => exact fun s₄ hs₄ => ⟨written, h₃.leaves hs₄⟩
          | failed => exact fun s₄ hs₄ => ⟨written, h₃.leaves hs₄⟩
  refine wp_bind (wp_attempt (wp_mono hmove ?_ ?_))
  · rintro - s₂ ⟨now, hgrows, hholds, h₂⟩
    refine wp_mono (removeTemp_wp h₂) (fun _ s₃ h₃ => ?_) fun _ _ h => h
    exact ⟨now, dir, hgrows, hholds, h₃⟩
  · rintro error s₂ ⟨content, h₂⟩
    refine wp_bind (wp_mono (removeTemp_wp h₂) (fun _ s₃ h₃ => ?_) fun _ _ h => h)
    exact wp_raise_working h₃ hown error

/-- Replacing a known version: the new one was put in place of it. -/
theorem replaceAtomically_rename_wp (h : Working t known own s) (hown : OnlyBackups t own)
    {target : PurePath} (hvisible : Visible target.name) (data : Bytes) (requested : String)
    {purpose : Purpose} {dir : Place} {bytes : Bytes}
    (hholds : HoldsFile server known target dir bytes)
    (hbacked : Backed server known purpose bytes) :
    (server.replaceAtomically t target data requested false purpose).wp
      (filesContract server processes t)
      (fun _ s => s.lock = some t ∧
        ⟨t, target, dir, some (.file bytes), data, purpose⟩ ∈ s.commits)
      (FailedLocked t) s := by
  refine mkstemp_wp h (fun s₁ h₁ => wp_raise_working h₁ hown _) fun dir' temp s₁ h₁ => ?_
  have hmove : (server.writeAndMove t target data requested false purpose dir' temp).wp
      (filesContract server processes t)
      (fun _ s => s.lock = some t ∧
        ⟨t, target, dir, some (.file bytes), data, purpose⟩ ∈ s.commits)
      (fun _ s => ∃ content, HasTemp server t target known own dir' temp content s) s₁ := by
    refine writeTemp_wp h₁ fun written ok s₂ h₂ hwritten => ?_
    cases ok with
    | false => exact fun s₃ hs₃ => ⟨written, h₂.leaves hs₃⟩
    | true =>
        obtain rfl := hwritten rfl
        refine rename_wp h₂ hvisible hown hholds hbacked (fun s₃ hlock hcommit => ?_)
          fun moved s₃ h₃ hmoved => ?_
        · exact fun s₄ hs₄ => ⟨(hs₄.held hlock).1, (hs₄.commits _ rfl).mpr hcommit⟩
        · cases moved with
          | done => exact absurd rfl hmoved
          | occupied => exact fun s₄ hs₄ => ⟨written, h₃.leaves hs₄⟩
          | failed => exact fun s₄ hs₄ => ⟨written, h₃.leaves hs₄⟩
  refine wp_bind (wp_attempt (wp_mono hmove ?_ ?_))
  · rintro - s₂ ⟨hlock, hcommit⟩
    exact fun s₃ hs₃ => ⟨(hs₃.held hlock).1, (hs₃.commits _ rfl).mpr hcommit⟩
  · rintro error s₂ ⟨content, h₂⟩
    refine wp_bind (wp_mono (removeTemp_wp h₂) (fun _ s₃ h₃ => ?_) fun _ _ h => h)
    exact wp_raise_working h₃ hown error

/-! ### The tools -/

/-- The call has not taken the lock, and has put nothing in place. -/
structure NotBegun (t : τ) (s : FilesState τ) : Prop where
  lock : s.lock ≠ some t
  commits : ∀ commit ∈ s.commits, commit.call ≠ t

theorem NotBegun.leaves (h : NotBegun t s) (hs : LeavesFiles t s s') : NotBegun t s' where
  lock := hs.notHeld h.lock
  commits commit hcommit hcall := h.commits commit ((hs.commits commit hcall).mp hcommit) hcall

theorem NotBegun.unwritten (h : NotBegun t s) (error : FilesError) : Unwritten t error s :=
  fun _ commit hcommit hcall => absurd hcall (h.commits commit hcommit)

/-- A property of what a call has put in place that the others, and the release of the lock, leave
alone. -/
def Lasting (t : τ) (R : α → FilesState τ → Prop) : Prop :=
  ∀ a s s', (∀ commit, commit.call = t → (commit ∈ s'.commits ↔ commit ∈ s.commits)) →
    R a s → R a s'

theorem withWriteLock_wp {R : α → FilesState τ → Prop} (hR : Lasting t R) (h : NotBegun t s)
    {body : FilesProgram τ α}
    (hbody : ∀ s', Working t s'.files [] s' → body.wp (filesContract server processes t)
      (fun a s => s.lock = some t ∧ R a s) (FailedLocked t) s') :
    (withWriteLock t body).wp (filesContract server processes t) R (Unwritten t) s := by
  intro s₁ hs₁ i hassume
  have h₁ := h.leaves hs₁
  have hfree : s₁.lock = none := by
    rcases hassume t rfl with hlock | hlock
    · exact absurd hlock h₁.lock
    · exact hlock
  refine ⟨.acquired hfree h₁.commits, ?_⟩
  have hworking : Working t s₁.files [] { s₁ with lock := some t } := by
    refine ⟨rfl, .refl _, fun commit hcall => ?_⟩
    exact ⟨fun hcommit => absurd hcall (h₁.commits commit hcommit), fun hnil => by cases hnil⟩
  refine wp_tryFinally (wp_mono (hbody _ hworking) ?_ ?_)
  · rintro a s₂ ⟨hlock, ha⟩ s₃ hs₃ - -
    refine ⟨.released (hs₃.held hlock).1, fun s₄ hs₄ s₅ hs₅ => ?_⟩
    refine hR a s₂ s₅ (fun commit hcall => ?_) ha
    exact (hs₅.commits commit hcall).trans ((hs₄.commits commit hcall).trans
      (hs₃.commits commit hcall))
  · rintro error s₂ hfailed s₃ hs₃ - -
    have h₃ := hfailed.leaves hs₃
    refine ⟨.released h₃.1, fun s₄ hs₄ s₅ hs₅ hne => ?_⟩
    have hreleased : OnlyBackups t s₄.commits :=
      OnlyBackups.leaves (s := { s₃ with lock := none }) (h₃.2 hne) hs₄
    exact hreleased.leaves hs₅

theorem onlyBackups_nil : OnlyBackups t ([] : List (Commit τ)) := by
  intro commit hcommit
  cases hcommit

theorem dataToWrite_wp (h : NotBegun t s) (content : String) (encoding : ContentEncoding) :
    (server.dataToWrite content encoding : FilesProgram τ Bytes).wp
      (filesContract server processes t)
      (fun data s => NotBegun t s ∧ server.decodeContent content encoding = .ok data) (Unwritten t)
      s := by
  unfold dataToWrite
  split
  · exact fun s₁ hs₁ => (h.leaves hs₁).unwritten _
  · next data hdata =>
      split
      · exact fun s₁ hs₁ => (h.leaves hs₁).unwritten _
      · exact fun s₁ hs₁ => ⟨h.leaves hs₁, hdata⟩

/-- What a call that replaces one version by another has put in place. -/
structure Replaced (server : FilesServer) (content : String) (encoding : ContentEncoding)
    (expectedSha256 : Option String) (created : Bool) (commit : Commit τ) : Prop where
  after : server.decodeContent content encoding = .ok commit.after
  version : commit.before = none ∧ expectedSha256 = none ∧ created = true ∨
    ∃ bytes, commit.before = some (.file bytes) ∧
      expectedSha256 = some (server.contentSha256 bytes) ∧ created = false

theorem checkVersion_eq_ok {path : String} {current : Option Bytes} {expected : Option String}
    {u : Unit} (h : server.checkVersion path current expected = .ok u) :
    expected = current.map server.contentSha256 := by
  unfold checkVersion at h
  split at h
  · rfl
  · cases h
  · cases h
  · next bytes expected =>
      split at h
      · cases h
      · next hsame => exact congrArg some (not_not.mp hsame).symm

/-- A call of `write_file` that answers has put the new content in place of the expected version. -/
theorem writeFile_wp (h : NotBegun t s) (path content : String) (encoding : ContentEncoding)
    (expectedSha256 : Option String) :
    (server.writeFile t path content encoding expectedSha256).wp (filesContract server processes t)
      (fun answer s => ∃ commit ∈ s.commits, commit.call = t ∧ commit.purpose = .document none ∧
        answer.path = commit.path.toText ∧
        Replaced server content encoding expectedSha256 answer.created commit) (Unwritten t) s := by
  have hfailed : ∀ s error, NotBegun t s → Unwritten t error s := fun _ error h => h.unwritten error
  refine wp_bind (wp_mono (resolve_wp (fun _ _ hs h => NotBegun.leaves h hs) hfailed h path) ?_
    fun _ _ h => h)
  rintro target s₁ ⟨h₁, hvisible⟩
  refine wp_bind (wp_mono (dataToWrite_wp h₁ content encoding) ?_ fun _ _ h => h)
  rintro data s₂ ⟨h₂, hdata⟩
  have hlasting : Lasting t fun (current : Option Bytes) (s : FilesState τ) =>
      expectedSha256 = current.map server.contentSha256 ∧
      ∃ commit ∈ s.commits, commit.call = t ∧ commit.purpose = .document none ∧
        commit.path = target ∧ commit.after = data ∧ commit.before = current.map .file := by
    rintro current s s' hsame ⟨hversion, commit, hcommit, hcall, hrest⟩
    exact ⟨hversion, commit, (hsame commit hcall).mpr hcommit, hcall, hrest⟩
  refine wp_bind (wp_mono (withWriteLock_wp hlasting h₂ fun s₃ h₃ => ?_) ?_ fun _ _ h => h)
  · refine wp_bind (wp_mono (readBytes_wp h₃ onlyBackups_nil target path) ?_ fun _ _ h => h)
    rintro current s₄ ⟨now, -, h₄, hcurrent⟩
    split
    · exact wp_raise_working h₄ onlyBackups_nil _
    next hversion =>
    have hexpected := checkVersion_eq_ok hversion
    refine wp_bind (wp_mono (mkdirParents_wp onlyBackups_nil _ _ h₄) (fun _ s₅ h₅ => ?_)
      fun _ _ h => h)
    refine wp_bind (wp_mono (resolve_wp (fun _ _ hs h => Working.leaves h hs)
      (fun _ error h => h.failed onlyBackups_nil error) h₅ path) ?_ fun _ _ h => h)
    rintro again s₆ ⟨h₆, -⟩
    split
    · exact wp_raise_working h₆ onlyBackups_nil _
    cases current with
    | none =>
        refine wp_bind (wp_mono (replaceAtomically_create_wp h₆ onlyBackups_nil hvisible data path
          (fun _ => by simp)) ?_ fun _ _ h => h)
        rintro - s₇ ⟨now', dir, -, -, h₇⟩ s₈ hs₈
        refine ⟨(h₇.leaves hs₈).lock, hexpected, ⟨t, target, dir, none, data, .document none⟩, ?_, rfl,
          rfl, rfl, rfl, rfl⟩
        exact ((h₇.leaves hs₈).own _ rfl).mpr List.mem_cons_self
    | some bytes =>
        obtain ⟨dir, hholds⟩ := hcurrent bytes rfl
        have hbacked : Backed server now (.document none) bytes :=
          ⟨none, rfl, fun _ hpath => by cases hpath⟩
        refine wp_bind (wp_mono (replaceAtomically_rename_wp h₆ onlyBackups_nil hvisible data path
          hholds hbacked) ?_ fun _ _ h => h)
        rintro - s₇ ⟨hlock, hcommit⟩ s₈ hs₈
        exact ⟨(hs₈.held hlock).1, hexpected, _, (hs₈.commits _ rfl).mpr hcommit, rfl, rfl, rfl, rfl,
          rfl⟩
  · rintro current s₃ ⟨hversion, commit, hcommit, hcall, hpurpose, rfl, rfl, hbefore⟩ s₄ hs₄
    refine ⟨commit, (hs₄.commits commit hcall).mpr hcommit, hcall, hpurpose, rfl, hdata, ?_⟩
    cases current with
    | none => exact .inl ⟨hbefore, hversion, rfl⟩
    | some bytes => exact .inr ⟨bytes, hbefore, hversion, rfl⟩

/-- The path a backup is at when there is one holds the current version. -/
theorem backUp_wp (h : Working t known [] s) (target : PurePath) (current : Bytes)
    (sha256 requested : String) :
    (server.backUp t target current sha256 requested).wp (filesContract server processes t)
      (fun backup s => ∃ now own, known.Grows now ∧ Working t now own s ∧ OnlyBackups t own ∧
        Visible backup.name ∧ ∃ dir, HoldsFile server now backup dir current)
      (FailedLocked t) s := by
  refine wp_bind (wp_mono (resolve_wp (fun _ _ hs h => Working.leaves h hs)
    (fun _ error h => h.failed onlyBackups_nil error) h _) ?_ fun _ _ h => h)
  rintro backup s₁ ⟨h₁, hvisible⟩
  refine wp_bind (wp_mono (readBytes_wp h₁ onlyBackups_nil backup requested) ?_ fun _ _ h => h)
  rintro present s₂ ⟨now, hgrows, h₂, hpresent⟩
  split
  · refine wp_bind (wp_mono (replaceAtomically_create_wp h₂ onlyBackups_nil hvisible current
      requested (fun _ => by simp)) ?_ fun _ _ h => h)
    rintro - s₃ ⟨now', dir, hgrows', hholds, h₃⟩ s₄ hs₄
    refine ⟨now', _, hgrows.trans hgrows', h₃.leaves hs₄, ?_, hvisible, dir, hholds⟩
    intro commit hcommit _
    obtain rfl := List.mem_singleton.mp hcommit
    rfl
  split
  · exact wp_raise_working h₂ onlyBackups_nil _
  · next hsame =>
      intro s₃ hs₃
      obtain ⟨dir, hholds⟩ := hpresent current (not_not.mp hsame)
      exact ⟨now, [], hgrows, h₂.leaves hs₃, onlyBackups_nil, hvisible, dir, hholds⟩

/-- A call of `overwrite_document` that answers has put the new content in place of the expected
version, and names the backup of that. -/
theorem overwriteDocument_wp (h : NotBegun t s) (path content expectedSha256 : String)
    (encoding : ContentEncoding) :
    (server.overwriteDocument t path content expectedSha256 encoding).wp
      (filesContract server processes t)
      (fun answer s => ∃ commit ∈ s.commits, commit.call = t ∧
        (∃ backup, commit.purpose = .document (some backup) ∧
          answer.backupPath = some backup.toText) ∧
        answer.path = commit.path.toText ∧
        Replaced server content encoding (some expectedSha256) answer.created commit)
      (Unwritten t) s := by
  have hfailed : ∀ s error, NotBegun t s → Unwritten t error s := fun _ error h => h.unwritten error
  refine wp_bind (wp_mono (resolve_wp (fun _ _ hs h => NotBegun.leaves h hs) hfailed h path) ?_
    fun _ _ h => h)
  rintro target s₁ ⟨h₁, hvisible⟩
  refine wp_bind (wp_mono (dataToWrite_wp h₁ content encoding) ?_ fun _ _ h => h)
  rintro data s₂ ⟨h₂, hdata⟩
  have hlasting : Lasting t fun (answer : String × PurePath) (s : FilesState τ) =>
      ∃ commit ∈ s.commits, commit.call = t ∧ commit.purpose = .document (some answer.2) ∧
        commit.path = target ∧ commit.after = data ∧ ∃ bytes, commit.before = some (.file bytes) ∧
        server.contentSha256 bytes = expectedSha256 := by
    rintro answer s s' hsame ⟨commit, hcommit, hcall, hrest⟩
    exact ⟨commit, (hsame commit hcall).mpr hcommit, hcall, hrest⟩
  refine wp_bind (wp_mono (withWriteLock_wp hlasting h₂ fun s₃ h₃ => ?_) ?_ fun _ _ h => h)
  · refine wp_bind (wp_mono (readBytes_wp h₃ onlyBackups_nil target path) ?_ fun _ _ h => h)
    rintro (- | current) s₄ ⟨now, -, h₄, hcurrent⟩
    · exact wp_raise_working h₄ onlyBackups_nil _
    dsimp only
    split
    · exact wp_raise_working h₄ onlyBackups_nil _
    next hversion =>
    refine wp_bind (wp_mono (backUp_wp h₄ target current _ path) ?_ fun _ _ h => h)
    rintro backup s₅ ⟨now', own', hgrows, h₅, hown, hname, hbackup⟩
    obtain ⟨dir, hholds⟩ := hcurrent current rfl
    have hbacked : Backed server now' (.document (some backup)) current := by
      refine ⟨some backup, rfl, fun other hother => ?_⟩
      obtain rfl := Option.some.inj hother
      exact ⟨hname, hbackup⟩
    refine wp_bind (wp_mono (replaceAtomically_rename_wp h₅ hown hvisible data path
      (hholds.grows hgrows) hbacked) ?_ fun _ _ h => h)
    rintro - s₆ ⟨hlock, hcommit⟩ s₇ hs₇
    exact ⟨(hs₇.held hlock).1, _, (hs₇.commits _ rfl).mpr hcommit, rfl, rfl, rfl, rfl, current, rfl,
      not_not.mp hversion⟩
  · rintro ⟨sha256, backup⟩ s₃ ⟨commit, hcommit, hcall, hpurpose, rfl, rfl, bytes, hbefore, hsha⟩
      s₄ hs₄
    exact ⟨commit, (hs₄.commits commit hcall).mpr hcommit, hcall, ⟨backup, hpurpose, rfl⟩, rfl, hdata,
      .inr ⟨bytes, hbefore, congrArg some hsha.symm, rfl⟩⟩

end operations

/-! ### Runs -/

/-- What a call that answers has put in place. -/
def Answered (server : FilesServer) (answer : WriteAnswer) (commit : Commit τ) :
    FilesProcess → Prop
  | .writeFile _ content encoding expectedSha256 => commit.purpose = .document none ∧
      Replaced server content encoding expectedSha256 answer.created commit
  | .overwriteDocument _ content expectedSha256 encoding =>
      (∃ backup, commit.purpose = .document (some backup) ∧
        answer.backupPath = some backup.toText) ∧
      Replaced server content encoding (some expectedSha256) answer.created commit
  | .creator => False

/-- The processes of a server on some files. -/
def filesPool (server : FilesServer) (processes : τ → FilesProcess) (files : FileSystem Bytes) :
    Pool τ FilesInput (FilesState τ) FilesError (Option WriteAnswer) where
  procs t := server.process t (processes t)
  state := { files, lock := none, commits := [] }

section runs

variable {server : FilesServer} {processes : τ → FilesProcess} {t : τ} {s : FilesState τ}

/-- Every process keeps its contract. -/
theorem process_wp (h : NotBegun t s) :
    (server.process t (processes t)).wp (filesContract server processes t)
      (fun answer s => ∀ a, answer = some a → ∃ commit ∈ s.commits, commit.call = t ∧
        a.path = commit.path.toText ∧ Answered server a commit (processes t)) (Unwritten t) s := by
  cases hprocess : processes t with
  | writeFile path content encoding expectedSha256 =>
      refine wp_bind (wp_mono (writeFile_wp h path content encoding expectedSha256) ?_
        fun _ _ h => h)
      rintro answer s₁ ⟨commit, hcommit, hcall, hpurpose, hpath, hreplaced⟩ s₂ hs₂ a ha
      obtain rfl := Option.some.inj ha
      exact ⟨commit, (hs₂.commits commit hcall).mpr hcommit, hcall, hpath, hpurpose, hreplaced⟩
  | overwriteDocument path content expectedSha256 encoding =>
      refine wp_bind (wp_mono (overwriteDocument_wp h path content expectedSha256 encoding) ?_
        fun _ _ h => h)
      rintro answer s₁ ⟨commit, hcommit, hcall, hbackup, hpath, hreplaced⟩ s₂ hs₂ a ha
      obtain rfl := Option.some.inj ha
      exact ⟨commit, (hs₂.commits commit hcall).mpr hcommit, hcall, hpath, hbackup, hreplaced⟩
  | creator =>
      intro s₁ hs₁ i _
      refine ⟨?_, fun s₂ hs₂ a ha => by cases ha⟩
      show FilesStep server processes t s₁ (create i s₁)
      rcases hcreation : i.creation with ⟨dir, name, node⟩
      simp only [create, hcreation]
      split
      · next hnone => exact .created dir name node hnone (.inr hprocess)
      · exact .quiet

variable {files : FileSystem Bytes}

theorem filesPool_sound : Pool.Sound (filesContract server processes)
    (fun t answer s => ∀ a, answer = some a → ∃ commit ∈ s.commits, commit.call = t ∧
      a.path = commit.path.toText ∧ Answered server a commit (processes t)) Unwritten
    (filesPool server processes files) := by
  intro t
  have hbegin : NotBegun t (filesPool server processes files).state :=
    ⟨by simp [filesPool], fun commit hcommit => by cases hcommit⟩
  exact process_wp hbegin

theorem filesPool_rely (t u : τ) (htu : t ≠ u) (s s' : FilesState τ)
    (h : (filesContract server processes u).guar s s') :
    (filesContract server processes t).rely s s' :=
  FilesStep.leavesFiles h htu

end runs

/-- **No lost update.**  In every interleaving of calls of the file tools and other creators that
respects the lock: every step leaves each visible file as it is or puts a complete one in place; a
call that answers has replaced the version whose hash it was given, or nothing when it was given
none; a call that raises, unless removing its temporary file failed, has put no document in place;
and if no backup that is taken is the document itself, then while a call holds the lock the backup of
what it replaced holds it. -/
theorem updates_kept [DecidableEq τ] (server : FilesServer) (processes : τ → FilesProcess)
    (files : FileSystem Bytes) (sched : List (τ × FilesInput))
    (hlock : Pool.Meets (fun _ => LockRespected) (filesPool server processes files) sched) :
    Pool.Meets (ContentChange server processes) (filesPool server processes files) sched ∧
    (∀ t answer, ((filesPool server processes files).run sched).procs t = .ret (some answer) →
      ∃ commit ∈ ((filesPool server processes files).run sched).state.commits, commit.call = t ∧
        answer.path = commit.path.toText ∧ Answered server answer commit (processes t)) ∧
    (∀ t error, ((filesPool server processes files).run sched).procs t = .raise error →
      error ≠ .cleanupFailed →
      OnlyBackups t ((filesPool server processes files).run sched).state.commits) ∧
    (Pool.Meets (fun _ => BackupElsewhere server) (filesPool server processes files) sched →
      BackupsKept server ((filesPool server processes files).run sched).state) := by
  have hsound := Pool.run_wp filesPool_sound (fun _ => rfl) filesPool_rely hlock
  have hsteps : Pool.Meets (fun t s s' => FilesStep server processes t s s')
      (filesPool server processes files) sched :=
    Pool.run_meets (J := fun _ => True) filesPool_sound (fun _ => rfl) filesPool_rely
      (fun _ _ => .quiet) (fun _ _ _ _ hstep _ => ⟨trivial, hstep⟩) hlock trivial
  refine ⟨hsteps.mono fun _ _ _ hstep => hstep.contentChange,
    fun t answer ht => Pool.run_ret hsound ht answer rfl,
    fun t error ht => Pool.run_raise hsound ht, fun hbackup => ?_⟩
  refine (hsteps.and hbackup).inv (fun _ _ _ hstep => hstep.1.backupsKept hstep.2) ?_
  intro commit hcommit
  cases hcommit

/-- A document of three bytes in `/data`. -/
def cvFiles : FileSystem Bytes :=
  (FileSystem.empty.put [] "data" (some .directory) rfl (by decide)).put
    ["data"] "cv.md" (some (.file [0x6f, 0x6c, 0x64])) rfl (by decide)

/-- The same, with a link from the name of its backup to the document. -/
def linkedFiles : FileSystem Bytes :=
  cvFiles.put ["data"] "cv.md.bak-cba06b5736fa" (some (.symlink false ["cv.md"])) rfl
    (by decide +kernel)

def cvServer : FilesServer where
  sandbox := { deniedNames := defaultDeniedNames, roots := [{ root := .slash, parts := ["data"] }] }
  maxBytes := 10 * 1024 * 1024
  casefold := String.toLower
  contentSha256 bytes :=
    if bytes = [0x6f, 0x6c, 0x64] then
      "cba06b5736faf67e54b07b561eae94395e774c517a7d910a54369e1263ccfbd4"
    else if bytes = [0x6e, 0x65, 0x78, 0x74] then
      "c6c1c9a9c8543f1e4cd980064cf1625eeb61a90703b2464fff039f21682508b3"
    else "11507a0e2f5e69d5dfa40a62a1bd7b6ee57e6bcd85c67c9b8431b36fff21c437"
  b64decode _ := none
  maxLinks := 40

/-- One call that overwrites the document. -/
def cvCall (_ : Unit) : FilesProcess :=
  .overwriteDocument "cv.md" "new"
    "cba06b5736faf67e54b07b561eae94395e774c517a7d910a54369e1263ccfbd4" .utf8

/-- No step fails, and `os.path.realpath` finds what it should. -/
def cvInput (files : FileSystem Bytes) : FilesInput where
  fails := false
  unreadable := false
  realpath names := (files.resolved 40 [] names).getD names
  tempName := "k3x9wq2z"
  written := 0
  creation := ([], "", .special)

def cvRun (files : FileSystem Bytes) : Pool Unit FilesInput (FilesState Unit) FilesError
    (Option WriteAnswer) :=
  (filesPool cvServer cvCall files).run (List.replicate 16 ((), cvInput files))

def cvAnswer (backupPath : String) : WriteAnswer where
  path := "/data/cv.md"
  size := 3
  sha256 := "11507a0e2f5e69d5dfa40a62a1bd7b6ee57e6bcd85c67c9b8431b36fff21c437"
  previousSha256 := some "cba06b5736faf67e54b07b561eae94395e774c517a7d910a54369e1263ccfbd4"
  backupPath := some backupPath
  created := false

/-- Two calls that overwrite the document, each given the hash of the version that both saw. -/
def cvCalls (first : Bool) : FilesProcess :=
  .overwriteDocument "cv.md" (if first then "new" else "next")
    "cba06b5736faf67e54b07b561eae94395e774c517a7d910a54369e1263ccfbd4" .utf8

/-- One call has resolved its path when the other comes in between and runs to its end. -/
def overlapping : List (Bool × FilesInput) :=
  (false, cvInput cvFiles) ::
    (List.replicate 16 (true, cvInput cvFiles) ++ List.replicate 16 (false, cvInput cvFiles))

def cvOverlap : Pool Bool FilesInput (FilesState Bool) FilesError (Option WriteAnswer) :=
  (filesPool cvServer cvCalls cvFiles).run overlapping

instance (s s' : FilesState Bool) : Decidable (LockRespected s s') :=
  inferInstanceAs (Decidable (∀ t, s'.lock = some t → s.lock = some t ∨ s.lock = none))

theorem overlapping_respects :
    Pool.Meets (fun _ => LockRespected) (filesPool cvServer cvCalls cvFiles) overlapping := by
  decide +kernel

theorem cvOverlap_first :
    cvOverlap.procs true = .ret (some (cvAnswer "/data/cv.md.bak-cba06b5736fa")) :=
  Prog.eq_ret_of_outcome (by decide +kernel)

/-- The later call finds another version than the one it was given the hash of. -/
theorem cvOverlap_second :
    cvOverlap.procs false = .raise (.changed "cv.md"
      "11507a0e2f5e69d5dfa40a62a1bd7b6ee57e6bcd85c67c9b8431b36fff21c437" "overwriting") :=
  Prog.eq_raise_of_outcome (by decide +kernel)

theorem updates_kept_cv :
    (∃ commit ∈ cvOverlap.state.commits, commit.call = true ∧
      (cvAnswer "/data/cv.md.bak-cba06b5736fa").path = commit.path.toText ∧
      Answered cvServer (cvAnswer "/data/cv.md.bak-cba06b5736fa") commit (cvCalls true)) ∧
    OnlyBackups false cvOverlap.state.commits := by
  obtain ⟨-, hanswer, herror, -⟩ :=
    updates_kept cvServer cvCalls cvFiles overlapping overlapping_respects
  exact ⟨hanswer true _ cvOverlap_first, herror false _ cvOverlap_second (by decide)⟩

/-- A backup name that leads to the document: the call answers that the document is the backup, and
the bytes it replaced are nowhere under that name. -/
theorem update_loses_backup :
    (cvRun linkedFiles).procs () = .ret (some (cvAnswer "/data/cv.md")) ∧
    (cvRun linkedFiles).state.files.node ["data", "cv.md"] = some (.file [0x6e, 0x65, 0x77]) ∧
    (cvRun linkedFiles).state.files.walk 40 [] ["data", "cv.md.bak-cba06b5736fa"]
      = .ok ["data", "cv.md"] :=
  ⟨Prog.eq_ret_of_outcome (by decide +kernel), by decide +kernel, by decide +kernel⟩

end PersonalOS
