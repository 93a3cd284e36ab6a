import StepScript.Files.Tree
import StepScript.Script.Basic

/-!
# Files/Scripts — script files in a directory

* `FileTree.findScript` — the file of a script name below a directory.
* `FileTree.scriptNames` — the names of all script files below a directory.
-/

namespace StepScript.FileTree

/-- Tries candidate files in turn; a file that is not there passes the turn, any other refusal is
final. -/
def tryCandidates (t : FileTree) (directory name : String) :
    List (String × Dialect) → Except Failure Located
  | [] => .error (Cause.notInDirectory name directory).failure
  | (file, dialect) :: rest =>
    let path := Path.join directory file
    match t.textAt path with
    | .ok text => .ok { file, dialect, text }
    | .error .notFound => tryCandidates t directory name rest
    | .error fault => .error (Cause.unreadable path fault.message).failure

/-- **The file of a script name** below a directory. -/
def findScript (t : FileTree) (directory name : String) : Except Failure Located :=
  t.tryCandidates directory name (candidates name)

/-- Whether a file name is that of a script: something before the last point and a known extension
after it. -/
def isScriptName (name : String) : Bool :=
  ((Path.fileExtension? name).bind Dialect.ofExtension?).isSome

/-- A relative name as it is shown: slashes between the steps, also where a step has a backslash. -/
def shownName (steps : List String) : String :=
  ("/".intercalate steps).map fun c => if c = '\\' then '/' else c

/-- Whether a file below a directory is listed as a script: its name is that of one, and the path of
the directory that holds it is no longer than a path can be. -/
def isListed (directory : String) (steps : List String) : Bool :=
  (steps.getLast?.map isScriptName).getD false &&
    ("/".intercalate (directory :: steps.dropLast)).utf8ByteSize ≤ maxPath

/-- **The names of the script files below a directory.** -/
def scriptNames (t : FileTree) (directory : String) : List String :=
  match t.find directory with
  | .ok (.directory inside) => (inside.files.filter (isListed directory)).map shownName
  | _ => []

end StepScript.FileTree
