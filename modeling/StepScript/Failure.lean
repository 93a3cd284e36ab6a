import StepScript.Entity
import StepScript.Handle

/-!
# Failure — why an operation fails

A `Failure` is a cause and, where one is known, the script line it happened on. Every cause belongs
to one kind, which has a stable code, and has one wording; nothing else in the library writes error
text. Hosts report failures of their own with `Cause.reported`.
-/

namespace StepScript

/-- A line of a script. -/
structure SourceLine where
  script : String
  line : Nat
deriving DecidableEq, Inhabited

/-- The text `script:line`. -/
def SourceLine.text (s : SourceLine) : String := s.script ++ ":" ++ toString s.line

/-- The kinds of failure. -/
inductive FailureKind where
  | fileNotFound
  | readFailed
  | malformedJson
  | noExecutableCommands
  | staleHandle
  | brokenParent
  | corruptSave
  | saveVersion
  | saveWrite
  | callFailed
  | functionMissing
  | invalidArgument
  | commandLineIo
deriving DecidableEq, Inhabited

/-- The stable code of a kind. -/
def FailureKind.code : FailureKind → String
  | .fileNotFound => "PARSE_FILE_NOT_FOUND"
  | .readFailed => "PARSE_READ_FAILED"
  | .malformedJson => "PARSE_MALFORMED_JSON"
  | .noExecutableCommands => "PARSE_NO_EXECUTABLE_COMMANDS"
  | .staleHandle => "STORE_STALE_HANDLE"
  | .brokenParent => "STORE_BROKEN_PARENT"
  | .corruptSave => "SAVE_CORRUPT"
  | .saveVersion => "SAVE_VERSION"
  | .saveWrite => "SAVE_WRITE"
  | .callFailed => "ENGINE_CALL_FAILED"
  | .functionMissing => "ENGINE_FUNCTION_MISSING"
  | .invalidArgument => "API_INVALID_ARGUMENT"
  | .commandLineIo => "CLI_IO"

/-- Why a read from a record stream fails: the stream ends early, a frame is longer than allowed, or
a frame does not hold what it should. -/
inductive StreamFault where
  | short
  | oversized (length : Nat)
  | undecodable
deriving DecidableEq, Inhabited

/-- The wording of a stream fault. -/
def StreamFault.message : StreamFault → String
  | .short => "failed to fill whole buffer"
  | .oversized length => "payload of " ++ toString length ++ " bytes exceeds limit"
  | .undecodable => "<decode>"

/-- **The causes of failure.** -/
inductive Cause where
  /-- No script of that name among those in memory. -/
  | notInMemory (name : String)
  /-- No script of that name below the directory. -/
  | notInDirectory (name directory : String)
  /-- A script file exists and cannot be read. -/
  | unreadable (path reason : String)
  /-- A JSON script is not JSON. -/
  | notJson
  /-- A JSON script lacks its list of commands. -/
  | noCommandArray (name : String)
  /-- An entry of the list of commands is not itself a list. -/
  | entryNotArray (number : Nat)
  /-- A script holds nothing to run. -/
  | nothingToRun (name : String)
  /-- The invocation is gone. -/
  | staleThread (thread : ThreadHandle)
  /-- The frame is gone. -/
  | staleFrame (frame : FrameHandle)
  /-- The entity's context went away during a start. -/
  | vanishedTarget (target : TargetHandle)
  /-- A frame points at an invocation that is gone. -/
  | missingThread (frame : FrameHandle) (thread : ThreadHandle)
  /-- The record stream cannot be read. -/
  | stream (fault : StreamFault)
  /-- A record of a saved table has a zero or repeated handle. -/
  | invalidHandle (kind : String) (index : Nat) (raw : UInt32)
  /-- A record of a saved table cannot be read. -/
  | badRecord (kind : String) (index : Nat) (raw : UInt32) (fault : StreamFault)
  /-- The save was written in another format. -/
  | unsupportedVersion (version : UInt32)
  /-- The output is full. -/
  | outputFull
  /-- A count does not fit its 32-bit field. -/
  | countTooLarge
  /-- A `call` could not enter its script. -/
  | callFailed (script : String) (reason : Cause)
  /-- The host offers no functions at all. -/
  | noFunctions (name : String)
  /-- The host does not offer the function. -/
  | unknownFunction (name : String)
  /-- A completion for a frame that waits for none. -/
  | notWaiting (frame : FrameHandle)
  /-- A start without a script name. -/
  | blankScriptName
  /-- A run of no steps. -/
  | noSteps
  /-- The root given on the command line is no directory. -/
  | rootNotDirectory (path : String)
  /-- The root given on the command line lacks the named directory. -/
  | rootLacks (directory path : String)
  /-- A text that names no entity. -/
  | notAnEntity (text : String)
  /-- A saved state that is not there. -/
  | stateMissing (path : String)
  /-- The file system refused; `doing` says what was tried. -/
  | fileSystem (doing reason : String)
  /-- A failure that a host reports. -/
  | reported (kind : FailureKind) (message : String)
deriving DecidableEq

namespace Cause

/-- The kind a cause belongs to. -/
def kind : Cause → FailureKind
  | .notInMemory _ | .notInDirectory _ _ => .fileNotFound
  | .unreadable _ _ => .readFailed
  | .notJson | .noCommandArray _ | .entryNotArray _ => .malformedJson
  | .nothingToRun _ => .noExecutableCommands
  | .staleThread _ | .staleFrame _ | .vanishedTarget _ => .staleHandle
  | .missingThread _ _ => .brokenParent
  | .stream _ | .invalidHandle _ _ _ | .badRecord _ _ _ _ => .corruptSave
  | .unsupportedVersion _ => .saveVersion
  | .outputFull | .countTooLarge => .saveWrite
  | .callFailed _ _ => .callFailed
  | .noFunctions _ | .unknownFunction _ => .functionMissing
  | .notWaiting _ | .blankScriptName | .noSteps | .rootNotDirectory _ | .rootLacks _ _
  | .notAnEntity _ | .stateMissing _ => .invalidArgument
  | .fileSystem _ _ => .commandLineIo
  | .reported kind _ => kind

/-- A text between double quotes, as it stands. -/
def quoted (s : String) : String := "\"" ++ s ++ "\""

/-- **The wording of a cause.** -/
def message : Cause → String
  | .notInMemory name => "Script " ++ quoted name ++ " not found in memory source."
  | .notInDirectory name directory =>
    "Script " ++ quoted name ++ " not found in " ++ directory ++ "."
  | .unreadable path reason => "Failed to read " ++ path ++ ": " ++ reason
  | .notJson => "<json>"
  | .noCommandArray name => "Script " ++ quoted name ++ " has no \"cmd\" array."
  | .entryNotArray number => "Entry " ++ toString number ++ " of \"cmd\" is not an array."
  | .nothingToRun name => "Script " ++ quoted name ++ " has no executable commands."
  | .staleThread thread => "Thread context " ++ thread.text ++ " is not live."
  | .staleFrame frame => "Frame context " ++ frame.text ++ " is not live."
  | .vanishedTarget target => "Target context " ++ target.text ++ " vanished while starting."
  | .missingThread frame thread =>
    "Frame " ++ frame.text ++ " belongs to missing thread " ++ thread.text ++ "."
  | .stream fault => fault.message
  | .invalidHandle kind index raw =>
    kind ++ " record " ++ toString index ++ " carries invalid handle " ++ toString raw.toNat ++ "."
  | .badRecord kind index raw fault =>
    kind ++ " record " ++ toString index ++ " (handle " ++ toString raw.toNat ++
      "): " ++ fault.message
  | .unsupportedVersion version =>
    "Save format " ++ toString version.toNat ++ " is not supported (expected 1)."
  | .outputFull => "failed to write whole buffer"
  | .countTooLarge => "record count too large"
  | .callFailed script reason =>
    "call " ++ quoted script ++ " failed: " ++ reason.kind.code ++ ": " ++ reason.message
  | .noFunctions name => "No function library registered for " ++ quoted name ++ "."
  | .unknownFunction name => "Function " ++ quoted name ++ " is not registered."
  | .notWaiting frame => "Frame " ++ frame.text ++ " is not waiting on an external call."
  | .blankScriptName => "Script name must not be empty."
  | .noSteps => "max_steps must be at least 1."
  | .rootNotDirectory path => "root is not a directory: " ++ path
  | .rootLacks directory path => "root has no " ++ directory ++ " directory: " ++ path
  | .notAnEntity text => "Not a valid entity id: " ++ quoted text
  | .stateMissing path => "State file does not exist: " ++ path
  | .fileSystem doing reason => doing ++ ": " ++ reason
  | .reported _ message => message

end Cause

/-- **A failure**: its cause and the script line it happened on, if there is one. -/
structure Failure where
  cause : Cause
  source : Option SourceLine := none
deriving DecidableEq

namespace Failure

/-- The kind of a failure. -/
def kind (f : Failure) : FailureKind := f.cause.kind

/-- The wording of a failure. -/
def message (f : Failure) : String := f.cause.message

/-- The full text of a failure: its code and its wording. -/
def text (f : Failure) : String := f.kind.code ++ ": " ++ f.message

end Failure

/-- A failure without a script line. -/
def Cause.failure (c : Cause) : Failure := { cause := c }

/-- A failure on a script line. -/
def Cause.failureAt (c : Cause) (source : SourceLine) : Failure :=
  { cause := c, source := some source }

end StepScript
