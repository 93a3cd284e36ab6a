import StepScript.CommandLine.Arguments
import StepScript.Files.Scripts
import StepScript.Json.Basic
import StepScript.Session

/-!
# CommandLine/Run — carrying out a command line

The scripts of a command line live in the directory `commands` of its root. `run` starts one of
them, `resume` continues a saved state and `check` reads every script without running any. All of it
is a computation over a file tree: what is printed, the exit code, and the tree with the saved state
in it.

* `commandLine` — from arguments to what is printed.
* `checkScripts` — one line for each script file, then the totals.
-/

namespace StepScript

/-- The directory of a root that holds its scripts. -/
def scriptDirectory : String := "commands"

/-- What a command line prints, and its exit code. -/
structure Printed where
  code : Nat
  lines : List String
deriving DecidableEq

/-! ## The functions that scripts can call -/

/-- What `msg` was told during a session, latest first. -/
abbrev Transcript := List String

namespace CommandLine

/-- Records its arguments. -/
def msg : Function Transcript := fun call => do
  modify fun w => { w with own := " ".intercalate call.args :: w.own }
  return .ok (.ready "")

/-- The number of characters of its arguments. -/
def strlen : Function Transcript := fun call =>
  return .ok (.ready (toString (" ".intercalate call.args).length))

/-- Waits until the state is resumed. -/
def wait : Function Transcript := fun _ => return .ok .pending

/-- The functions of a session. -/
def functions : FunctionTable Transcript :=
  FunctionTable.register
    (FunctionTable.register (FunctionTable.register ∅ "msg" msg) "strlen" strlen) "wait" wait

/-- **The host of a session**: its functions, and the scripts of a root. -/
def host (t : FileTree) (root : String) : Host Transcript where
  dispatch := functions.dispatch
  load name := return t.findScript (Path.join root scriptDirectory) name

/-! ## Reading the request -/

/-- The text of a place. -/
def placeText (place : Place) : String := "/" ++ "/".intercalate place

/-- **The root of a session**, from the root of all paths. It has to hold a directory of scripts. -/
def resolveRoot (t : FileTree) (root : String) : Except Failure String :=
  let path := Path.join (placeText t.here) root
  if !t.isDirectory path then .error (Cause.rootNotDirectory path).failure
  else if !t.isDirectory (Path.join path scriptDirectory) then
    .error (Cause.rootLacks scriptDirectory path).failure
  else .ok path

/-- The entity that the command line names. -/
def readEntity (text : String) : Except Failure EntityId :=
  match EntityId.read? text with
  | some entity => .ok entity
  | none => .error (Cause.notAnEntity text).failure

/-- The bytes of a saved state. -/
def readState (t : FileTree) (path : String) : Except Failure Bytes :=
  if !t.pathExists path then .error (Cause.stateMissing path).failure
  else
    match t.contentAt path with
    | .ok bytes => .ok bytes
    | .error fault => .error (Cause.fileSystem "read state" fault.message).failure

/-- Saves a machine to a file. -/
def saveState (path : String) (m : Machine) : Act FileTree (Except Failure Unit) := do
  match ← FileTree.makeParents path with
  | .error fault => return .error (Cause.fileSystem "create state dir" fault.message).failure
  | .ok () =>
    match ← FileTree.setContent path ((m.save.toOption).getD []) with
    | .error fault => return .error (Cause.fileSystem "write state" fault.message).failure
    | .ok () => return m.save.map fun _ => ()

/-! ## Reports -/

/-- The word for an outcome. -/
def eventName : RunOutcome → String
  | .finished => "FINISHED"
  | .idle => "IDLE"
  | .stepLimit => "STEP_LIMIT"

/-- **The report on several runs**: all their steps, and the least settled of their outcomes. -/
def mergeReports (reports : List RunReport) : RunReport :=
  { steps := reports.foldl (fun n report => n + report.steps) 0
    outcome :=
      if reports.any (·.outcome = .stepLimit) then .stepLimit
      else if reports.any (·.outcome = .idle) then .idle
      else .finished }

/-- The lines that report a failure. -/
def failureLines (f : Failure) : List String :=
  ["RESULT:ERROR", "ERROR_CODE:" ++ f.kind.code, "ERROR_MSG_JSON:" ++ Json.quote f.message] ++
    match f.source with
    | some source => ["ERROR_AT:" ++ source.text]
    | none => []

/-- The lines that report a session. -/
def sessionLines (w : World Transcript) (report : RunReport) (stateOut : Option String) :
    List String :=
  ["RESULT:OK", "EVENT:" ++ eventName report.outcome, "STEPS:" ++ toString report.steps] ++
    w.own.reverse.map (fun text => "TEXT_JSON:" ++ Json.quote text) ++
    w.machine.globals.entries.map (fun (name, value) => "GLOBAL:" ++ name ++ "=" ++
      Json.quote value) ++
    ["STATE_OUT:" ++ stateOut.getD "NONE"]

/-- Ends a session: saves the machine if asked to, then reports. -/
def finish (w : World Transcript) (report : RunReport) (stateOut : Option String) :
    Act FileTree (Except Failure Printed) := do
  let saved ← match stateOut with
    | some path => saveState path w.machine
    | none => pure (.ok ())
  match saved with
  | .error failure => return .error failure
  | .ok () => return .ok { code := 0, lines := sessionLines w report stateOut }

/-- Runs a session from a machine; its log joins that of the command line. -/
def inSession {α : Type} (x : Act (World Transcript) α) (m : Machine) :
    Act FileTree (α × World Transcript) := do
  let r := x.run { machine := m, own := [] }
  Act.reportAll r.log
  return (r.value, r.state)

/-! ## The three modes -/

/-- Starts a script and runs it. -/
def startAndRun (h : Host Transcript) (entity : EntityId) (script : String) (maxSteps : Nat) :
    Act (World Transcript) (Except Failure RunReport) := do
  match ← h.startNamed entity script with
  | .error failure => return .error failure
  | .ok thread => h.runUntilIdle thread maxSteps

/-- Runs invocations one after another, up to the first failure. -/
def runAll (h : Host Transcript) (maxSteps : Nat) :
    List ThreadHandle → Act (World Transcript) (Except Failure (List RunReport))
  | [] => return .ok []
  | t :: ts => do
    match ← h.runUntilIdle t maxSteps with
    | .error failure => return .error failure
    | .ok report =>
      match ← runAll h maxSteps ts with
      | .error failure => return .error failure
      | .ok reports => return .ok (report :: reports)

/-- **Runs a script.** -/
def runScript (r : RunRequest) : Act FileTree (Except Failure Printed) := do
  let t ← get
  match resolveRoot t r.root with
  | .error failure => return .error failure
  | .ok root =>
    match readEntity r.entity with
    | .error failure => return .error failure
    | .ok entity =>
      match ← inSession (startAndRun (host t root) entity r.script r.maxSteps) ∅ with
      | (.error failure, _) => return .error failure
      | (.ok report, w) => finish w report r.stateOut

/-- Loads a state and runs every invocation in it. -/
def loadAndRun (h : Host Transcript) (bytes : Bytes) (maxSteps : Nat) :
    Act (World Transcript) (Except Failure (List RunReport)) := do
  match ← World.onMachine (Machine.load h.toSetting bytes) with
  | .error failure => return .error failure
  | .ok () => runAll h maxSteps (← World.getMachine).invocations

/-- **Resumes a saved state.** -/
def resumeState (r : ResumeRequest) : Act FileTree (Except Failure Printed) := do
  let t ← get
  match resolveRoot t r.root with
  | .error failure => return .error failure
  | .ok root =>
    match readState t r.stateIn with
    | .error failure => return .error failure
    | .ok bytes =>
      match ← inSession (loadAndRun (host t root) bytes r.maxSteps) ∅ with
      | (.error failure, _) => return .error failure
      | (.ok reports, w) => finish w (mergeReports reports) r.stateOut

/-- Reads the script of a name below a directory, with the warnings about it. -/
def checkScript (t : FileTree) (directory name : String) :
    Except Failure (Script × List Diagnostic) :=
  match t.findScript directory name with
  | .error failure => .error failure
  | .ok located => Script.read name located.dialect located.text

/-- The line about one checked script. -/
def checkLine (name : String) : Except Failure (Script × List Diagnostic) → String
  | .ok (script, _) => "CHECK:" ++ name ++ ":OK:" ++ toString script.runnableCount
  | .error failure => "CHECK:" ++ name ++ ":ERROR:" ++ failure.kind.code

/-- What is reported about one checked script. -/
def checkLog (name : String) : Except Failure (Script × List Diagnostic) → List Diagnostic
  | .ok (_, warnings) => warnings
  | .error failure => [.checkFailed name failure]

/-- **Checks every script file.** -/
def checkScripts (root : String) : Act FileTree (Except Failure Printed) := do
  let t ← get
  match resolveRoot t root with
  | .error failure => return .error failure
  | .ok root =>
    let directory := Path.join root scriptDirectory
    let checked := (t.scriptNames directory).map fun name => (name, checkScript t directory name)
    let failed := checked.countP fun c => !c.2.isOk
    Act.reportAll (checked.flatMap fun c => checkLog c.1 c.2)
    return .ok
      { code := if failed = 0 then 0 else 1
        lines := checked.map (fun c => checkLine c.1 c.2) ++
          ["CHECKED:" ++ toString checked.length, "FAILED:" ++ toString failed] }

/-- Carries out a request. -/
def carryOut : Request → Act FileTree (Except Failure Printed)
  | .run r => runScript r
  | .resume r => resumeState r
  | .check root => checkScripts root

end CommandLine

/-- **Carries out a command line.** A line that is not understood prints nothing and gives code
2. -/
def commandLine (arguments : List String) : Act FileTree Printed := do
  match readArguments arguments with
  | .error .help => return { code := 0, lines := [] }
  | .error .wrong => return { code := 2, lines := [] }
  | .ok request =>
    match ← CommandLine.carryOut request with
    | .ok printed => return printed
    | .error failure => return { code := 1, lines := CommandLine.failureLines failure }

end StepScript
