import StepScript.Failure
import StepScript.Operator

/-!
# Diagnostic — what an operation reports besides its result

Warnings concern scripts and are harmless; errors are refused operations or broken links between
objects. A diagnostic is data: `Diagnostic.level` and `Diagnostic.text` give its line in the log,
and `Diagnostic.isIntegrity` tells the broken links from the rest.
-/

namespace StepScript

/-- Where a token is read from: a script line, or the host on behalf of an invocation. -/
inductive Origin where
  | source (line : SourceLine)
  | invocation (thread : ThreadHandle)
deriving DecidableEq

/-- The text of an origin. -/
def Origin.text : Origin → String
  | .source line => line.text
  | .invocation thread => "invocation " ++ thread.text

/-- What a command warns about. -/
inductive LineWarning where
  | resultNeedsFunction
  | setFailed (token : String) (fault : OperatorFault)
  | setTokens (count : Nat)
  | ifTokens (count : Nat)
  | unknownComparison (operator : String)
  | gotoTokens (count : Nat)
  | labelMissing (key : String)
  | gosubTokens (count : Nat)
  | subroutineMissing (key : String)
  | endsubUnmatched
  | beginsubUnmatched
  | callNeedsName
  | incNeedsVariable
  | incAmount (text : String)
  | catNeedsValue
  | callargTokens (count : Nat)
  | argumentMissing (text : String)
  | commandFailed (name : String) (failure : Failure)
deriving DecidableEq

/-- The wording of a command's warning. -/
def LineWarning.text : LineWarning → String
  | .resultNeedsFunction => "set ... resultfrom needs a function name"
  | .setFailed token fault => "set " ++ token ++ ": " ++ fault.message
  | .setTokens count => "set expects 3 or 5 tokens, got " ++ toString count
  | .ifTokens count => "if expects 5 tokens, got " ++ toString count
  | .unknownComparison operator => "unknown comparison \"" ++ operator ++ "\""
  | .gotoTokens count => "goto expects 2 tokens, got " ++ toString count
  | .labelMissing key => "label \"" ++ key ++ "\" not found"
  | .gosubTokens count => "gosub expects 2 tokens, got " ++ toString count
  | .subroutineMissing key => "subroutine \"" ++ key ++ "\" not found"
  | .endsubUnmatched => "endsub without a matching gosub"
  | .beginsubUnmatched => "beginsub without a matching endsub"
  | .callNeedsName => "call needs a script name"
  | .incNeedsVariable => "inc needs a variable"
  | .incAmount text => "inc amount \"" ++ text ++ "\" is not a number"
  | .catNeedsValue => "cat needs a variable and a value"
  | .callargTokens count => "callarg expects 3 tokens, got " ++ toString count
  | .argumentMissing text => "call argument \"" ++ text ++ "\" out of range"
  | .commandFailed name failure => "command \"" ++ name ++ "\" failed: " ++ failure.text

/-- How serious a diagnostic is. -/
inductive Level where
  | warn
  | error
deriving DecidableEq

/-- The word for a level. -/
def Level.text : Level → String
  | .warn => "WARN"
  | .error => "ERROR"

/-- **What an operation may report.** -/
inductive Diagnostic where
  /-- A label was declared before; the first declaration counts. -/
  | duplicateLabel (source : SourceLine) (name : String)
  /-- A subroutine was declared before; the first declaration counts. -/
  | duplicateSubroutine (source : SourceLine) (name : String)
  /-- A subroutine without a name. -/
  | namelessSubroutine (source : SourceLine)
  /-- A command did not do what it says. -/
  | line (source : SourceLine) (warning : LineWarning)
  /-- A variable token of no known scope. -/
  | unknownScope (origin : Origin) (token : String)
  /-- The result of the last call cannot be assigned. -/
  | readOnly (origin : Origin)
  /-- An assignment to something that is no variable. -/
  | notVariable (origin : Origin) (token : String)
  /-- A run was cut off. -/
  | stepLimit (thread : ThreadHandle) (steps : Nat)
  /-- A script does not pass the check. -/
  | checkFailed (name : String) (failure : Failure)
  /-- A start was refused. -/
  | startFailed (script : String) (entity : EntityId) (failure : Failure)
  /-- A `call` was refused. -/
  | callFailed (source : SourceLine) (script : String) (failure : Failure)
  /-- The host asks about an invocation that is gone. -/
  | notLive (thread : ThreadHandle)
  /-- An invocation's entity context is gone. -/
  | deadTarget (thread : ThreadHandle) (target : TargetHandle)
  /-- The object that would hold a variable is gone. -/
  | noOwner (origin : Origin) (name : String)
  /-- A frame's invocation is gone. -/
  | deadThread (frame : FrameHandle) (thread : ThreadHandle)
  /-- A frame lists a command that is gone. -/
  | missingCommand (frame : FrameHandle) (command : CommandHandle)
  /-- A frame's current command is gone. -/
  | lostCommand (script : String) (frame : FrameHandle) (index : Nat)
  /-- A frame left its stack from the middle. -/
  | notOnTop (frame : FrameHandle) (thread : ThreadHandle)
  /-- A frame on a stack is gone. -/
  | unusableFrame (frame : FrameHandle) (failure : Failure)
  /-- An invocation has no frame. -/
  | emptyStack (thread : ThreadHandle)
  /-- A table of a save cannot be read. -/
  | tableRejected (kind : String) (failure : Failure)
  /-- A save cannot be read. -/
  | saveRejected (failure : Failure)
  /-- An entity of a save is gone, with its invocations. -/
  | entityGone (entity : EntityId) (target : TargetHandle) (invocations : Nat)
  /-- A saved invocation has no entity context. -/
  | missingTarget (thread : ThreadHandle) (target : TargetHandle)
  /-- A saved invocation has no frame. -/
  | noFrames (thread : ThreadHandle)
  /-- A saved frame is on no stack. -/
  | strayFrame (frame : FrameHandle) (thread : ThreadHandle)
  /-- A saved invocation has no live frame. -/
  | lostFrames (thread : ThreadHandle)
  /-- A call that a save interrupted could not be finished. -/
  | unfinishedCall (frame : FrameHandle) (failure : Failure)
deriving DecidableEq

namespace Diagnostic

/-- How serious a diagnostic is. -/
def level : Diagnostic → Level
  | .duplicateLabel _ _ | .duplicateSubroutine _ _ | .namelessSubroutine _ | .line _ _
  | .unknownScope _ _ | .readOnly _ | .notVariable _ _ | .stepLimit _ _ | .checkFailed _ _ => .warn
  | _ => .error

/-- **A broken link between live objects**: what no run of the host's operations brings about. -/
def isIntegrity : Diagnostic → Bool
  | .deadTarget _ _ | .noOwner _ _ | .deadThread _ _ | .missingCommand _ _ | .lostCommand _ _ _
  | .notOnTop _ _ | .unusableFrame _ _ | .emptyStack _ => true
  | _ => false

/-- The wording of a diagnostic. -/
def text : Diagnostic → String
  | .duplicateLabel source name => source.text ++ ": duplicate label \"" ++ name ++ "\" ignored"
  | .duplicateSubroutine source name =>
    source.text ++ ": duplicate subroutine \"" ++ name ++ "\" ignored"
  | .namelessSubroutine source => source.text ++ ": beginsub without a name"
  | .line source warning => source.text ++ ": " ++ warning.text
  | .unknownScope origin token => origin.text ++ ": unknown variable scope in \"" ++ token ++ "\""
  | .readOnly origin => origin.text ++ ": \"$$\" is read-only"
  | .notVariable origin token => origin.text ++ ": \"" ++ token ++ "\" is not a variable"
  | .stepLimit thread steps =>
    "invocation " ++ thread.text ++ " hit the " ++ toString steps ++ " step limit"
  | .checkFailed name failure => name ++ ": " ++ failure.text
  | .startFailed script entity failure =>
    "failed to start \"" ++ script ++ "\" on entity " ++ entity.text ++ ": " ++ failure.text
  | .callFailed source script failure =>
    source.text ++ ": call \"" ++ script ++ "\" failed: " ++ failure.text
  | .notLive thread => "invocation " ++ thread.text ++ " is not live"
  | .deadTarget thread target =>
    "invocation " ++ thread.text ++ " points at dead target " ++ target.text
  | .noOwner origin name => origin.text ++ ": variable \"" ++ name ++ "\" has no live owner"
  | .deadThread frame thread =>
    "frame " ++ frame.text ++ " points at dead invocation " ++ thread.text
  | .missingCommand frame command =>
    "frame " ++ frame.text ++ " references missing command record " ++ command.text
  | .lostCommand script frame index =>
    script ++ ": frame " ++ frame.text ++ " lost command record " ++ toString index
  | .notOnTop frame thread =>
    "frame " ++ frame.text ++ " popped while not on top of " ++ thread.text
  | .unusableFrame frame failure => "dropping unusable frame " ++ frame.text ++ ": " ++ failure.text
  | .emptyStack thread => "invocation " ++ thread.text ++ " has an empty call stack"
  | .tableRejected kind failure => kind ++ " table failed to load: " ++ failure.text
  | .saveRejected failure => "save rejected: " ++ failure.text
  | .entityGone entity target invocations =>
    "entity " ++ entity.text ++ " of target " ++ target.text ++ " no longer resolves; dropping " ++
      toString invocations ++ " invocation(s)"
  | .missingTarget thread target =>
    "invocation " ++ thread.text ++ " points at missing target " ++ target.text
  | .noFrames thread => "invocation " ++ thread.text ++ " has no frames"
  | .strayFrame frame thread =>
    "frame " ++ frame.text ++ " is not on the stack of invocation " ++ thread.text
  | .lostFrames thread => "invocation " ++ thread.text ++ " lost every frame"
  | .unfinishedCall frame failure =>
    "frame " ++ frame.text ++ ": interrupted call not finished: " ++ failure.text

/-- The log line of a diagnostic. -/
def logLine (d : Diagnostic) : String := d.level.text ++ " " ++ d.text

end Diagnostic

end StepScript
