import StepScript.CommandLine.Run

/-!
# Main — the command line on a real disk

The command line is a computation over a file tree. Here the tree is taken from the disk: the root
with everything below it, and the files that the request names. What the computation saved is
written back, and what it printed is printed.
-/

namespace StepScript.Main

/-- The deepest directory below the root that is looked into. -/
def maxDepth : Nat := 64

/-- What is printed when help is asked for. -/
def usage : List String :=
  ["Run, resume and check command scripts", "",
    "  run    --root DIR [--script NAME] [--entity ID] [--max-steps N] [--state-out FILE]",
    "  resume --root DIR --state-in FILE [--max-steps N] [--state-out FILE]",
    "  check  --root DIR"]

/-- The tree with a directory at a path. -/
def withDirectory (t : FileTree) (path : String) : FileTree :=
  ((FileTree.makeWay path).run t).state

/-- The tree with a file at a path. -/
def withFile (t : FileTree) (path : String) (content : Bytes) : FileTree :=
  ((FileTree.setContent path content).run t).state

/-- Adds what the disk has at a path, without what is below. -/
def observe (t : FileTree) (path : String) : IO FileTree := do
  let disk := System.mkFilePath [path]
  if ← disk.isDir then return withDirectory t path
  try
    let content ← IO.FS.readBinFile disk
    return withFile t path content.data.toList
  catch _ => return t

/-- Adds what the disk has at a path and on the way to it. -/
def observeWay (t : FileTree) (path : String) : IO FileTree := do
  let start := if Path.isAbsolute path then "/" else ""
  let (t, _) ← (Path.steps path).foldlM
    (fun (t, way) step => do
      let way := Path.join way step
      return (← observe t way, way))
    (t, start)
  return t

/-- Adds everything below a directory, up to a depth. -/
def observeBelow : Nat → FileTree → String → IO FileTree
  | 0, t, _ => return t
  | depth + 1, t, path => do
    let entries ← try (System.mkFilePath [path]).readDir catch _ => pure #[]
    entries.foldlM
      (fun t entry => do
        let below := Path.join path entry.fileName
        let t ← observe t below
        if t.isDirectory below then observeBelow depth t below else return t)
      t

/-- Adds a root with everything below it. -/
def observeRoot (t : FileTree) (root : String) : IO FileTree := do
  let root := Path.join (CommandLine.placeText t.here) root
  observeBelow maxDepth (← observeWay t root) root

/-- The part of the disk that a request is about. -/
def observeRequest (t : FileTree) : Request → IO FileTree
  | .run r => do observeWay (← observeRoot t r.root) (r.stateOut.getD "")
  | .resume r => do
    observeWay (← observeWay (← observeRoot t r.root) r.stateIn) (r.stateOut.getD "")
  | .check root => observeRoot t root

/-- The file to which a request saves. -/
def stateOut? : Request → Option String
  | .run r => r.stateOut
  | .resume r => r.stateOut
  | .check _ => none

/-- Writes the saved state of a tree to the disk. -/
def writeState (t : FileTree) (path : String) : IO Unit := do
  match t.contentAt path with
  | .error _ => return
  | .ok content =>
    match (System.mkFilePath [path]).parent with
    | some parent => IO.FS.createDirAll parent
    | none => pure ()
    IO.FS.writeBinFile path ⟨content.toArray⟩

/-- Carries out a request on the disk. -/
def perform (arguments : List String) (request : Request) : IO UInt32 := do
  let here ← IO.currentDir
  let t := { withDirectory {} here.toString with here := Path.steps here.toString }
  let t ← observeRequest t request
  let r := (commandLine arguments).run t
  for d in r.log do
    IO.eprintln d.logLine
  match stateOut? request with
  | some path => if r.value.code = 0 then writeState r.state path
  | none => pure ()
  for line in r.value.lines do
    IO.println line
  return UInt32.ofNat r.value.code

end StepScript.Main

/-- The command line. -/
def main (arguments : List String) : IO UInt32 := do
  match StepScript.readArguments arguments with
  | .ok request => StepScript.Main.perform arguments request
  | .error .help =>
    for line in StepScript.Main.usage do
      IO.println line
    return 0
  | .error .wrong =>
    for line in StepScript.Main.usage do
      IO.eprintln line
    return 2
