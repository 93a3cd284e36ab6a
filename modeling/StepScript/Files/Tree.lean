import StepScript.Act
import StepScript.Files.Listing
import StepScript.Files.Path

/-!
# Files/Tree — a file system as a value

A tree is the listing of its root and the directory from which relative paths start. A path is read
step by step from there; the file system refuses a text that can be no path before it looks at a
single step.

* `FileTree.locate` — where a path leads, or why it leads nowhere.
* `FileTree.find` — what a path names.
* `FileTree.contentAt`, `FileTree.setContent`, `FileTree.makeDirectories` — operations by path.
-/

namespace StepScript

/-- The names that lead from the root to a file or directory. -/
abbrev Place := List String

/-- Why the file system refuses. -/
inductive FileFault where
  | notFound
  | exists
  | notDirectory
  | isDirectory
  | nameTooLong
  | nulInName
  | notText
deriving DecidableEq

/-- The wording of a refusal. -/
def FileFault.message : FileFault → String
  | .notFound => "No such file or directory (os error 2)"
  | .exists => "File exists (os error 17)"
  | .notDirectory => "Not a directory (os error 20)"
  | .isDirectory => "Is a directory (os error 21)"
  | .nameTooLong => "File name too long (os error 36)"
  | .nulInName => "file name contained an unexpected NUL byte"
  | .notText => "stream did not contain valid UTF-8"

/-- **A file tree** and the directory from which relative paths start. -/
structure FileTree where
  here : Place := []
  root : Listing := .empty
  ordered : root.Ordered := by trivial

namespace FileTree

/-- Puts a node under a name into a directory. -/
def put (t : FileTree) (place : Place) (name : String) (node : FileNode)
    (h : Listing.OrderedNode node) : FileTree :=
  { t with root := t.root.putAt name node place, ordered := t.ordered.putAt name h place }

/-! ## Paths -/

/-- The longest name, in bytes. -/
def maxName : Nat := 255

/-- The longest path, in bytes. -/
def maxPath : Nat := 4095

/-- Why a text is no path, if it is none. -/
def refusal? (path : String) : Option FileFault :=
  if '\x00' ∈ path.toList then some .nulInName
  else if path.isEmpty then some .notFound
  else if maxPath < path.utf8ByteSize then some .nameTooLong
  else none

/-- The directories that a walk went into, latest first, with what they hold. -/
abbrev Trail := List (String × Listing)

/-- What the directory at the end of a trail holds. -/
def inside (t : FileTree) : Trail → Listing
  | [] => t.root
  | (_, listing) :: _ => listing

/-- The place at the end of a trail. -/
def placeOf (trail : Trail) : Place := (trail.map Prod.fst).reverse

/-- What a name stands for at the end of a trail. -/
def entry? (t : FileTree) (trail : Trail) (name : String) : Except FileFault (Option FileNode) :=
  if maxName < name.utf8ByteSize then .error .nameTooLong else .ok ((t.inside trail).find? name)

/-- **Walks into directories**, step after step. -/
def walk (t : FileTree) : Trail → List String → Except FileFault Trail
  | trail, [] => .ok trail
  | trail, step :: steps =>
    if step = "." then walk t trail steps
    else if step = ".." then walk t trail.tail steps
    else
      match t.entry? trail step with
      | .error fault => .error fault
      | .ok none => .error .notFound
      | .ok (some (.file _)) => .error .notDirectory
      | .ok (some (.directory listing)) => walk t ((step, listing) :: trail) steps

/-- **Where a path leads**: into a directory, and there to a name unless the path names that
directory itself. Nothing has to be under the name. -/
def locate (t : FileTree) (path : String) : Except FileFault (Trail × Option String) :=
  match refusal? path with
  | some fault => .error fault
  | none =>
    let start := if Path.isAbsolute path then [] else t.here
    match (Path.steps path).reverse with
    | [] => (t.walk [] start).map fun trail => (trail, none)
    | last :: before =>
      match t.walk [] (start ++ before.reverse) with
      | .error fault => .error fault
      | .ok trail =>
        if last = "." then .ok (trail, none)
        else if last = ".." then .ok (trail.tail, none)
        else .ok (trail, some last)

/-- **What a path names.** -/
def find (t : FileTree) (path : String) : Except FileFault FileNode :=
  match t.locate path with
  | .error fault => .error fault
  | .ok (trail, none) => .ok (.directory (t.inside trail))
  | .ok (trail, some name) =>
    match t.entry? trail name with
    | .error fault => .error fault
    | .ok none => .error .notFound
    | .ok (some (.file content)) =>
      if Path.endsInSlash path then .error .notDirectory else .ok (.file content)
    | .ok (some (.directory listing)) => .ok (.directory listing)

/-- Whether a path names something. -/
def pathExists (t : FileTree) (path : String) : Bool :=
  match t.find path with
  | .ok _ => true
  | .error _ => false

/-- Whether a path names a directory. -/
def isDirectory (t : FileTree) (path : String) : Bool :=
  match t.find path with
  | .ok (.directory _) => true
  | _ => false

/-- **The content of a file.** -/
def contentAt (t : FileTree) (path : String) : Except FileFault Bytes :=
  match t.find path with
  | .error fault => .error fault
  | .ok (.directory _) => .error .isDirectory
  | .ok (.file content) => .ok content

/-- The content of a file as text. -/
def textAt (t : FileTree) (path : String) : Except FileFault String :=
  match t.contentAt path with
  | .error fault => .error fault
  | .ok content =>
    match Binary.ofUtf8? content with
    | some text => .ok text
    | none => .error .notText

/-! ## Changing -/

/-- Makes one directory. Nothing may be at its path. -/
def makeDirectory (t : FileTree) (path : String) : Except FileFault FileTree :=
  match t.locate path with
  | .error fault => .error fault
  | .ok (_, none) => .error .exists
  | .ok (trail, some name) =>
    match t.entry? trail name with
    | .error fault => .error fault
    | .ok (some _) => .error .exists
    | .ok none => .ok (t.put (placeOf trail) name (.directory .empty) trivial)

/-- **Makes a directory and those that lead to it.** They are given nearest first. Directories that
are there already are fine, and those made before a refusal stay. -/
def makeDirectories : List String → Act FileTree (Except FileFault Unit)
  | [] => return .ok ()
  | path :: outer => do
    let t ← get
    match t.makeDirectory path with
    | .ok t =>
      set t
      return .ok ()
    | .error .notFound =>
      match ← makeDirectories outer with
      | .error fault => return .error fault
      | .ok () =>
        let t ← get
        match t.makeDirectory path with
        | .ok t =>
          set t
          return .ok ()
        | .error fault => if t.isDirectory path then return .ok () else return .error fault
    | .error fault => if t.isDirectory path then return .ok () else return .error fault

/-- Makes the directories on the way to what a path names. -/
def makeParents (path : String) : Act FileTree (Except FileFault Unit) :=
  makeDirectories (Path.enclosing path)

/-- Makes a directory at a path and those on the way to it. -/
def makeWay (path : String) : Act FileTree (Except FileFault Unit) :=
  makeDirectories (path :: Path.enclosing path)

/-- **Writes a file**, replacing its content. -/
def setContent (path : String) (content : Bytes) : Act FileTree (Except FileFault Unit) := do
  let t ← get
  match t.locate path with
  | .error fault => return .error fault
  | .ok (_, none) => return .error .isDirectory
  | .ok (trail, some name) =>
    if Path.endsInSlash path then return .error .isDirectory
    match t.entry? trail name with
    | .error fault => return .error fault
    | .ok (some (.directory _)) => return .error .isDirectory
    | .ok _ =>
      set (t.put (placeOf trail) name (.file content) trivial)
      return .ok ()

end FileTree

end StepScript
