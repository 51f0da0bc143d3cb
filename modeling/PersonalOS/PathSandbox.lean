import PersonalOS.Texts

/-! # The path sandbox

`PathSandbox.resolve` turns the text of a request into a path the file tools touch.

* **Paths.** A `PurePath` is a root and the names below it, as `pathlib` reads a text; `normpath`
  collapses `..` without looking at any file.
* **Roots.** `PathSandbox.create` makes the allowed roots canonical and refuses those that are
  relative, the filesystem root or in a denied directory.
* **Requests.** `PathSandbox.resolve` anchors the request, checks it as written, and decides on the
  canonical path.

`realpath` stands for `os.path.realpath` of an absolute path, `casefold` for `str.casefold`. -/

namespace PersonalOS

/-! ### Paths -/

inductive PathRoot where
  | relative
  | slash
  /-- Exactly two leading slashes are a root of their own. -/
  | doubleSlash
deriving DecidableEq, Repr

structure PurePath where
  root : PathRoot
  parts : List String
deriving DecidableEq, Repr

namespace PurePath

/-- The names a text is written with. -/
def names (text : String) : List String :=
  (text.toList.splitOn '/').map String.ofList

def rootOf : List Char → PathRoot
  | '/' :: '/' :: '/' :: _ => .slash
  | '/' :: '/' :: _ => .doubleSlash
  | '/' :: _ => .slash
  | _ => .relative

/-- `Path` of a text. -/
def ofText (text : String) : PurePath where
  root := rootOf text.toList
  parts := (names text).filter fun name => !(name = "" || name = ".")

def isAbsolute (path : PurePath) : Bool := path.root ≠ .relative

/-- The `/` of two paths. -/
def join (base path : PurePath) : PurePath :=
  if path.isAbsolute then path else { base with parts := base.parts ++ path.parts }

/-- The names of a normalised path, one name further. -/
def collapse (absolute : Bool) (done : List String) (name : String) : List String :=
  if name ≠ ".." ∨ (absolute = false ∧ done = []) ∨ done.getLast? = some ".." then done ++ [name]
  else done.dropLast

/-- `os.path.normpath`. -/
def normpath (path : PurePath) : PurePath :=
  { path with parts := path.parts.foldl (collapse path.isAbsolute) [] }

/-- `str` of a path. -/
def toText (path : PurePath) : String :=
  let names := String.intercalate "/" path.parts
  match path.root with
  | .relative => if path.parts = [] then "." else names
  | .slash => "/" ++ names
  | .doubleSlash => "//" ++ names

/-- The last name of a path. -/
def name (path : PurePath) : String := path.parts.getLastD ""

/-- The parts of the parent. -/
def parentParts (path : PurePath) : List String := path.parts.dropLast

def withName (path : PurePath) (name : String) : PurePath :=
  { path with parts := path.parts.dropLast ++ [name] }

/-- The parts of an absolute path, its root among them. -/
def anchoredParts (path : PurePath) : List String :=
  match path.root with
  | .relative => path.parts
  | .slash => "/" :: path.parts
  | .doubleSlash => "//" :: path.parts

/-- The path is the root, or the root is one of its parents. -/
def isWithin (path root : PurePath) : Bool := path.root = root.root && root.parts.isPrefixOf path.parts

/-- The parts of `path.relative_to(root)`. -/
def relativeTo (path root : PurePath) : List String := path.parts.drop root.parts.length

example : normpath (ofText "/data/./cv/../notes.md") = ofText "/data/notes.md" := by decide +kernel

end PurePath

/-- The canonical form of an absolute path. -/
def canonical (realpath : List String → List String) (path : PurePath) : PurePath :=
  { root := .slash, parts := realpath path.parts }

/-! ### The sandbox -/

/-- Why an allowed root is refused. -/
inductive RootRefused where
  | relative (raw : String)
  | filesystemRoot (raw : String)
  | denied (raw part : String)
deriving DecidableEq, Repr

def RootRefused.message (repr : String → String) : RootRefused → String
  | relative raw => "allowed root must be an absolute path: " ++ repr raw
  | filesystemRoot raw => "allowed root must not be the filesystem root: " ++ repr raw
  | denied raw part =>
      "allowed root " ++ repr raw ++ " is inside a denied directory (" ++ repr part ++ ")"

/-- Why a path is refused, by the sandbox or by the file tools. -/
inductive PathNotAllowed where
  | notAString
  | nulByte
  | noRoots
  | outsideRoots (requested : String)
  | deniedDirectory (requested part : String)
  | isRoot (requested : String)
  | notOpened (requested : String)
  | notRegular (requested : String)
  | changedWhileWritten (requested : String)
deriving DecidableEq, Repr

def PathNotAllowed.message (repr : String → String) : PathNotAllowed → String
  | notAString => "path must be a non-empty string"
  | nulByte => "path contains a NUL byte"
  | noRoots => "no allowed roots are configured for file tools"
  | outsideRoots requested => "path " ++ repr requested ++ " resolves outside the allowed roots"
  | deniedDirectory requested part =>
      "path " ++ repr requested ++ " is inside a denied directory (" ++ repr part ++ ")"
  | isRoot requested => "path " ++ repr requested ++ " is an allowed root, not a file"
  | notOpened requested => "path " ++ repr requested ++ " could not be opened safely"
  | notRegular requested => "path " ++ repr requested ++ " is not a regular file"
  | changedWhileWritten requested =>
      "path " ++ repr requested ++ " changed while it was being written"

/-- The names refused below every root when none are given. -/
def defaultDeniedNames : List String :=
  [".ssh", ".gnupg", ".password-store", ".netrc", ".env", ".git-credentials", "keychains", "keyrings",
   ".aws", ".azure", ".gcloud", "gcloud", ".kube", ".docker", ".oci",
   ".config", ".local", ".git", "appdata",
   ".mozilla", "google-chrome", "chromium", "bravesoftware", "microsoft edge", "microsoft-edge",
   "user data"]

/-- Resolves untrusted paths against a fixed set of allowed roots. -/
structure PathSandbox where
  deniedNames : List String
  roots : List PurePath
deriving DecidableEq, Repr

namespace PathSandbox

section create

variable (casefold : String → String) (realpath : List String → List String)

/-- Add the canonical form of an allowed root. -/
def addRoot (deniedNames : List String) (roots : List PurePath) (raw : String) :
    Except RootRefused (List PurePath) :=
  let root := PurePath.ofText raw
  if root.isAbsolute = false then .error (.relative raw)
  else
    let root := canonical realpath root
    if root.parts = [] then .error (.filesystemRoot raw)
    else match root.anchoredParts.find? fun part => deniedNames.contains (casefold part) with
      | some part => .error (.denied raw part)
      | none => .ok (if roots.contains root then roots else roots ++ [root])

/-- Canonicalize the roots once, at construction. -/
def create (allowedRoots deniedNames : List String) : Except RootRefused PathSandbox := do
  let deniedNames := deniedNames.map casefold
  let roots ← allowedRoots.foldlM (addRoot casefold realpath deniedNames) []
  return { deniedNames, roots }

end create

variable (sandbox : PathSandbox)

def isDenied (casefold : String → String) (part : String) : Bool :=
  part.startsWith "." || sandbox.deniedNames.contains (casefold part)

def rootOf (path : PurePath) : Option PurePath := sandbox.roots.find? path.isWithin

def refuseDeniedParts (casefold : String → String) (requested : String) (parts : List String) :
    Except PathNotAllowed Unit :=
  match parts.find? (sandbox.isDenied casefold) with
  | some part => .error (.deniedDirectory requested part)
  | none => .ok ()

/-- Check the path as requested, when it is written below a root. -/
def checkLexical (casefold : String → String) (requested : String) (anchored : PurePath) :
    Except PathNotAllowed Unit :=
  let lexical := anchored.normpath
  match sandbox.rootOf lexical with
  | some root => sandbox.refuseDeniedParts casefold requested (lexical.relativeTo root)
  | none => .ok ()

/-- The canonical path for a request. -/
def resolve (casefold : String → String) (realpath : List String → List String)
    (requested : String) : Except PathNotAllowed PurePath :=
  if strip requested = "" then .error .notAString
  else if requested.toList.contains '\x00' then .error .nulByte
  else match sandbox.roots with
    | [] => .error .noRoots
    | primary :: _ => do
        let anchored := primary.join (PurePath.ofText requested)
        sandbox.checkLexical casefold requested anchored
        let path := canonical realpath anchored
        match sandbox.rootOf path with
        | none => .error (.outsideRoots requested)
        | some root => do
            sandbox.refuseDeniedParts casefold requested (path.relativeTo root)
            if path = root then .error (.isRoot requested) else .ok path

end PathSandbox

end PersonalOS
