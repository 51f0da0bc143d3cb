import PersonalOS.FileTree
import PersonalOS.PathSandbox
import PersonalOS.Prog

/-! # The files server

`write_file` and `overwrite_document`, one system call a step.

* **Files.** The content of a file that is there never changes, since writers outside the server only
  create: opening, checking and reading one is a single step.  A step may fail with an error of the
  system.  What `os.path.realpath` finds may be anything.
* **The lock.** Waiting for the write lock is not being scheduled while another call holds it.
* **The record.** `FilesState.commits` remembers what each link and each rename put in place; no step
  reads it. -/

namespace PersonalOS

open Concurrent Concurrent.Prog FileTree

abbrev Bytes := List UInt8

inductive ContentEncoding where
  | utf8
  | base64
deriving DecidableEq, Repr

/-- What was written to a place: a document, with the backup of what it replaced, or a backup. -/
inductive Purpose where
  | document (backup : Option PurePath)
  | backup
deriving DecidableEq, Repr

/-- A link or a rename by a call: the path it wrote to, the directory that led to, what was there and
what is there now. -/
structure Commit (τ : Type) where
  call : τ
  path : PurePath
  dir : Place
  before : Option (Node Bytes)
  after : Bytes
  purpose : Purpose
deriving DecidableEq, Repr

def Commit.place {τ : Type} (commit : Commit τ) : Place := commit.dir ++ [commit.path.name]

structure FilesState (τ : Type) where
  files : FileSystem Bytes
  /-- The call that holds the write lock. -/
  lock : Option τ
  commits : List (Commit τ)

inductive FilesError where
  | pathNotAllowed (reason : PathNotAllowed)
  | contentTooLarge (size limit : ℕ)
  | fileTooLarge (requested : String) (size limit : ℕ)
  | notBase64
  | notFound (path : String)
  /-- `StaleWrite`: the file is gone, is there already, or is another version. -/
  | noLongerExists (path : String)
  | alreadyExists (path : String)
  | changed (path currentSha256 verb : String)
  | createdByAnother (requested : String)
  | backupTaken (name requested : String)
  /-- What a system call raised. -/
  | osError
  /-- What removing the temporary file raised. -/
  | cleanupFailed
deriving DecidableEq, Repr

/-- The text of an error that the server raises itself. -/
def FilesError.message (repr : String → String) : FilesError → Option String
  | pathNotAllowed reason => some (reason.message repr)
  | contentTooLarge size limit =>
      some ("content is " ++ toString size ++ " bytes; the limit is " ++ toString limit)
  | fileTooLarge requested size limit =>
      some ("file " ++ repr requested ++ " is " ++ toString size ++ " bytes; the limit is " ++
        toString limit)
  | notBase64 => some "content is not valid base64"
  | notFound path =>
      some ("file " ++ repr path ++
        " does not exist; overwrite_document only replaces an existing file")
  | noLongerExists path =>
      some ("file " ++ repr path ++ " no longer exists; omit expected_sha256 to create it")
  | alreadyExists path =>
      some ("file " ++ repr path ++ " already exists; read it and pass its sha256 " ++
        "as expected_sha256 to replace it")
  | changed path currentSha256 verb =>
      some ("file " ++ repr path ++ " changed since it was read (current sha256 " ++ currentSha256 ++
        "); re-read it before " ++ verb)
  | createdByAnother requested =>
      some ("file " ++ repr requested ++
        " was created by another writer; read it before writing")
  | backupTaken name requested =>
      some ("backup path " ++ repr name ++ " is already taken by different content; " ++
        "refusing to overwrite " ++ repr requested ++ " without a backup")
  | osError => none
  | cleanupFailed => none

/-- What the surroundings decide of a step. -/
structure FilesInput where
  /-- The system call fails. -/
  fails : Bool
  /-- A file that was opened cannot be read. -/
  unreadable : Bool
  /-- What `os.path.realpath` finds. -/
  realpath : List String → List String
  /-- The random part of a temporary file's name. -/
  tempName : String
  /-- How much a failing write has written. -/
  written : ℕ
  /-- What another creator makes, and where. -/
  creation : Place × String × Node Bytes

/-- The server, and the functions of the system it uses. -/
structure FilesServer where
  sandbox : PathSandbox
  maxBytes : ℕ
  casefold : String → String
  contentSha256 : Bytes → String
  b64decode : String → Option Bytes
  /-- How many links the system follows. -/
  maxLinks : ℕ

structure WriteAnswer where
  path : String
  size : ℕ
  sha256 : String
  previousSha256 : Option String
  backupPath : Option String
  created : Bool
deriving DecidableEq, Repr

/-- A call, or another creator, which answers nothing. -/
abbrev FilesProgram (τ α : Type) : Type 1 := Prog FilesInput (FilesState τ) FilesError α

namespace FilesServer

variable {τ : Type} (server : FilesServer)

/-! ### Paths and contents -/

def resolve (requested : String) : FilesProgram τ PurePath := do
  match ← input fun i => server.sandbox.resolve server.casefold i.realpath requested with
  | .ok path => return path
  | .error reason => raise (.pathNotAllowed reason)

def decodeContent (content : String) : ContentEncoding → Except FilesError Bytes
  | .utf8 => .ok content.toUTF8.data.toList
  | .base64 => (server.b64decode content).elim (.error .notBase64) .ok

/-- The decoded content, when it is small enough. -/
def dataToWrite (content : String) (encoding : ContentEncoding) : FilesProgram τ Bytes :=
  match server.decodeContent content encoding with
  | .error error => raise error
  | .ok data =>
      if server.maxBytes < data.length then raise (.contentTooLarge data.length server.maxBytes)
      else ret data

/-! ### Reading -/

/-- How opening and reading a file ends. -/
inductive Opened where
  | missing
  | refused
  | notRegular
  | unreadable
  | content (bytes : Bytes)

/-- Open a path without following a link at its end, and read. -/
def openFile (target : PurePath) (i : FilesInput) (s : FilesState τ) : Opened :=
  if i.fails then .refused
  else match s.files.directory server.maxLinks target.parentParts with
    | .error .tooManyLinks => .refused
    | .error _ => .missing
    | .ok dir =>
        match s.files.node (dir ++ [target.name]) with
        | none => .missing
        | some (.symlink _ _) => .refused
        | some (.file bytes) => if i.unreadable then .unreadable else .content bytes
        | some _ => .notRegular

def readBytes (target : PurePath) (requested : String) : FilesProgram τ (Option Bytes) := do
  match ← act fun i s => (server.openFile target i s, s) with
  | .missing => return none
  | .refused => raise (.pathNotAllowed (.notOpened requested))
  | .notRegular => raise (.pathNotAllowed (.notRegular requested))
  | .unreadable => raise .osError
  | .content bytes =>
      if server.maxBytes < bytes.length then
        raise (.fileTooLarge requested bytes.length server.maxBytes)
      else return some bytes

/-! ### Directories -/

inductive MadeDirectory where
  | made
  | noParent
  | failed

def mkdir (names : List String) (i : FilesInput) (s : FilesState τ) :
    MadeDirectory × FilesState τ :=
  if i.fails || names.isEmpty then (.failed, s)
  else match s.files.directory server.maxLinks names.dropLast with
    | .error .notFound => (.noParent, s)
    | .error _ => (.failed, s)
    | .ok dir =>
        let name := names.getLastD ""
        match s.files.node (dir ++ [name]) with
        | none => (.made, { s with files := s.files.update dir name (some .directory) })
        | some _ => (.failed, s)

/-- The names lead to a directory. -/
def isDir (names : List String) (i : FilesInput) (s : FilesState τ) : Bool :=
  match s.files.walk server.maxLinks [] names with
  | .ok place => !i.fails && s.files.isDirectory place
  | .error _ => false

/-- One `mkdir` with `exist_ok`. -/
def mkdirExistOk (names : List String) (onNoParent : FilesProgram τ Unit) :
    FilesProgram τ Unit := do
  match ← act (server.mkdir names) with
  | .made => return ()
  | .noParent => onNoParent
  | .failed =>
      if ← act fun i s => (server.isDir names i s, s) then return ()
      else raise .osError

/-- `mkdir` with `parents` and `exist_ok`, for a path of so many names. -/
def mkdirParents : ℕ → List String → FilesProgram τ Unit
  | 0, names => server.mkdirExistOk names (raise .osError)
  | length + 1, names =>
      server.mkdirExistOk names do
        mkdirParents length names.dropLast
        server.mkdirExistOk names (raise .osError)

/-! ### Replacing -/

def tempName (i : FilesInput) : String := ".personalos-" ++ i.tempName ++ ".tmp"

/-- A new empty file beside the target: its directory and its name. -/
def mkstemp (target : PurePath) (i : FilesInput) (s : FilesState τ) :
    Option (Place × String) × FilesState τ :=
  if i.fails then (none, s)
  else match s.files.directory server.maxLinks target.parentParts with
    | .error _ => (none, s)
    | .ok dir =>
        match s.files.node (dir ++ [tempName i]) with
        | some _ => (none, s)
        | none =>
            (some (dir, tempName i),
              { s with files := s.files.update dir (tempName i) (some (.file [])) })

/-- Write to the new file, and flush it; a write that fails may have written a part. -/
def writeTemp (dir : Place) (temp : String) (data : Bytes) (i : FilesInput) (s : FilesState τ) :
    Bool × FilesState τ :=
  let written := if i.fails then data.take i.written else data
  (!i.fails, { s with files := s.files.update dir temp (some (.file written)) })

inductive Moved where
  | done
  | occupied
  | failed

/-- Link the temporary file to the target, where nothing may be. -/
def link (t : τ) (target : PurePath) (temp : String) (purpose : Purpose) (i : FilesInput)
    (s : FilesState τ) : Moved × FilesState τ :=
  if i.fails then (.failed, s)
  else match s.files.directory server.maxLinks target.parentParts with
    | .error _ => (.failed, s)
    | .ok dir =>
        match s.files.node (dir ++ [temp]), s.files.node (dir ++ [target.name]) with
        | some (.file after), none =>
            (.done, { s with
              files := s.files.update dir target.name (some (.file after))
              commits := ⟨t, target, dir, none, after, purpose⟩ :: s.commits })
        | some (.file _), some _ => (.occupied, s)
        | _, _ => (.failed, s)

/-- Rename the temporary file to the target. -/
def rename (t : τ) (target : PurePath) (temp : String) (purpose : Purpose) (i : FilesInput)
    (s : FilesState τ) : Moved × FilesState τ :=
  if i.fails then (.failed, s)
  else match s.files.directory server.maxLinks target.parentParts with
    | .error _ => (.failed, s)
    | .ok dir =>
        match s.files.node (dir ++ [temp]), s.files.isDirectory (dir ++ [target.name]) with
        | some (.file after), false =>
            (.done, { s with
              files := (s.files.update dir target.name (some (.file after))).update dir temp none
              commits := ⟨t, target, dir, s.files.node (dir ++ [target.name]), after, purpose⟩ ::
                s.commits })
        | _, _ => (.failed, s)

/-- Remove the temporary file. -/
def unlink (target : PurePath) (temp : String) (i : FilesInput) (s : FilesState τ) :
    Bool × FilesState τ :=
  if i.fails then (false, s)
  else match s.files.directory server.maxLinks target.parentParts with
    | .error _ => (false, s)
    | .ok dir =>
        match s.files.node (dir ++ [temp]) with
        | some (.file _) => (true, { s with files := s.files.update dir temp none })
        | _ => (false, s)

def removeTemp (target : PurePath) (temp : String) : FilesProgram τ Unit := do
  if ← act (server.unlink target temp) then return ()
  else raise .cleanupFailed

/-- Write the temporary file and move it into place. -/
def writeAndMove (t : τ) (target : PurePath) (data : Bytes) (requested : String) (creating : Bool)
    (purpose : Purpose) (dir : Place) (temp : String) : FilesProgram τ Unit := do
  if ← act (writeTemp dir temp data) then
    if creating then
      match ← act (server.link t target temp purpose) with
      | .done => return ()
      | .occupied => raise (.createdByAnother requested)
      | .failed => raise .osError
    else
      match ← act (server.rename t target temp purpose) with
      | .done => return ()
      | _ => raise .osError
  else raise .osError

/-- Write data beside the target, then move it into place in one step. -/
def replaceAtomically (t : τ) (target : PurePath) (data : Bytes) (requested : String)
    (creating : Bool) (purpose : Purpose) : FilesProgram τ Unit := do
  match ← act (server.mkstemp target) with
  | none => raise .osError
  | some (dir, temp) =>
      match ← (server.writeAndMove t target data requested creating purpose dir temp).attempt with
      | .ok _ =>
          -- After a rename there is no temporary file any more.
          if creating then server.removeTemp target temp else return ()
      | .error error => do
          server.removeTemp target temp
          raise error

/-! ### The tools -/

def withWriteLock {α : Type} (t : τ) (body : FilesProgram τ α) : FilesProgram τ α := do
  write fun s => { s with lock := some t }
  body.tryFinally (write fun s => { s with lock := none })

/-- The version on disk is the one the caller names. -/
def checkVersion (path : String) (current : Option Bytes) (expectedSha256 : Option String) :
    Except FilesError Unit :=
  match current, expectedSha256 with
  | none, none => .ok ()
  | none, some _ => .error (.noLongerExists path)
  | some _, none => .error (.alreadyExists path)
  | some bytes, some expected =>
      if server.contentSha256 bytes ≠ expected then
        .error (.changed path (server.contentSha256 bytes) "writing")
      else .ok ()

def writeFile (t : τ) (path content : String) (encoding : ContentEncoding)
    (expectedSha256 : Option String) : FilesProgram τ WriteAnswer := do
  let target ← server.resolve path
  let data ← server.dataToWrite content encoding
  let current ← withWriteLock t do
    let current ← server.readBytes target path
    match server.checkVersion path current expectedSha256 with
    | .error error => raise error
    | .ok _ => do
        server.mkdirParents target.parentParts.length target.parentParts
        let again ← server.resolve path
        if again ≠ target then raise (.pathNotAllowed (.changedWhileWritten path))
        else do
          server.replaceAtomically t target data path current.isNone (.document none)
          return current
  return {
    path := target.toText, size := data.length, sha256 := server.contentSha256 data,
    previousSha256 := current.map server.contentSha256, backupPath := none,
    created := current.isNone }

/-- The path of the backup of a version. -/
def backupName (target : PurePath) (sha256 : String) : PurePath :=
  target.withName (target.name ++ ".bak-" ++ String.ofList (sha256.toList.take 12))

/-- Copy the current version beside the target, unless that is done already. -/
def backUp (t : τ) (target : PurePath) (current : Bytes) (sha256 requested : String) :
    FilesProgram τ PurePath := do
  let backup ← server.resolve (backupName target sha256).toText
  let present ← server.readBytes backup requested
  if present = none then do
    server.replaceAtomically t backup current requested true .backup
    return backup
  else if present ≠ some current then raise (.backupTaken backup.name requested)
  else return backup

def overwriteDocument (t : τ) (path content expectedSha256 : String) (encoding : ContentEncoding) :
    FilesProgram τ WriteAnswer := do
  let target ← server.resolve path
  let data ← server.dataToWrite content encoding
  let (sha256, backup) ← withWriteLock t do
    match ← server.readBytes target path with
    | none => raise (.notFound path)
    | some current =>
        let sha256 := server.contentSha256 current
        if sha256 ≠ expectedSha256 then raise (.changed path sha256 "overwriting")
        else do
          let backup ← server.backUp t target current sha256 path
          server.replaceAtomically t target data path false (.document (some backup))
          return (sha256, backup)
  return {
    path := target.toText, size := data.length, sha256 := server.contentSha256 data,
    previousSha256 := some sha256, backupPath := some backup.toText, created := false }

/-! ### Processes -/

/-- What runs on the files: the server's calls, and other creators. -/
inductive FilesProcess where
  | writeFile (path content : String) (encoding : ContentEncoding) (expectedSha256 : Option String)
  | overwriteDocument (path content expectedSha256 : String) (encoding : ContentEncoding)
  | creator

/-- Another creator makes something where nothing is. -/
def create (i : FilesInput) (s : FilesState τ) : FilesState τ :=
  let (dir, name, node) := i.creation
  if s.files.node (dir ++ [name]) = none then
    { s with files := s.files.update dir name (some node) }
  else s

def process (t : τ) : FilesProcess → FilesProgram τ (Option WriteAnswer)
  | .writeFile path content encoding expectedSha256 => do
      let answer ← server.writeFile t path content encoding expectedSha256
      return some answer
  | .overwriteDocument path content expectedSha256 encoding => do
      let answer ← server.overwriteDocument t path content expectedSha256 encoding
      return some answer
  | .creator => do
      act fun i s => ((), create i s)
      return none

end FilesServer

end PersonalOS
