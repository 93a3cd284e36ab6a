import StepScript.Machine.Basic
import StepScript.Script.Basic

/-!
# Machine/Stack — call stacks

A script that is entered becomes the innermost frame of its invocation. Before a frame runs, its
cursor is moved forward to the next command that can run; what the scan found is remembered until
the cursor moves. A frame without such a command is exhausted and leaves the stack, with every
exhausted frame below it.
-/

namespace StepScript

/-- What a step tells the host. -/
inductive Signal where
  /-- Something ran; there may be more. -/
  | pending
  /-- Nothing can run now: the invocation waits for the host, or is gone. -/
  | idle
  /-- The invocation's stack is empty and the invocation is gone. -/
  | finished
deriving DecidableEq, Inhabited

namespace Machine

/-! ## Entering a script -/

/-- A new frame for a script. -/
def newFrame (t : ThreadHandle) (script : Script) (commands : List CommandHandle)
    (args : List String) : Frame :=
  { thread := t, script := script.name, dialect := script.dialect, commands, args,
    gotos := script.gotos, gosubs := script.gosubs }

/-- **Puts a script on top of an invocation's stack.** -/
def pushScript (t : ThreadHandle) (script : Script) (args : List String) :
    Act Machine (Except Failure FrameHandle) := do
  let m ← get
  let (commandHandles, commands) := m.commands.createAll script.commands
  let (f, frames) := m.frames.create (newFrame t script commandHandles args)
  let m := { m with commands, frames }
  if m.threads.contains t then
    set (m.modifyThread t fun thread => { thread with stack := f :: thread.stack })
    return .ok f
  else
    set (m.removeFrame f)
    return .error (Cause.staleThread t).failure

/-! ## Scanning -/

/-- The invocation of a frame, if both are live. -/
def threadOf (f : FrameHandle) : Act Machine (Except Failure ThreadHandle) := do
  let m ← get
  match m.frames.get? f with
  | none => return .error (Cause.staleFrame f).failure
  | some frame =>
    if m.threads.contains frame.thread then return .ok frame.thread
    else
      Act.report (.deadThread f frame.thread)
      return .error (Cause.missingThread f frame.thread).failure

/-- The result of a scan: what was found, where, and which commands were missing. -/
structure Scan where
  readiness : Readiness
  index : Nat
  missing : List CommandHandle := []
deriving DecidableEq

/-- Looks for a command to run, the first one given having the given index. -/
def scanFrom (m : Machine) (index : Nat) : List CommandHandle → Scan
  | [] => { readiness := .exhausted, index }
  | h :: hs =>
    match m.commands.get? h with
    | none =>
      let rest := m.scanFrom (index + 1) hs
      { rest with missing := h :: rest.missing }
    | some c => if c.isRunnable then { readiness := .ready, index } else m.scanFrom (index + 1) hs

/-- **Moves a frame's cursor to the next command to run**, unless that was done since the cursor
last moved. -/
def ensureReady (f : FrameHandle) : Act Machine (Except Failure Readiness) := do
  let m ← get
  match m.frames.get? f with
  | none => return .error (Cause.staleFrame f).failure
  | some frame =>
    match frame.readiness with
    | .unknown =>
      let found := m.scanFrom frame.cursor (frame.commands.drop frame.cursor)
      Act.reportAll (found.missing.map (.missingCommand f))
      set (m.modifyFrame f fun frame =>
        { frame with
          cursor := min found.index frame.commands.length
          readiness := found.readiness })
      return .ok found.readiness
    | known => return .ok known

/-! ## Leaving a script -/

/-- Drops exhausted frames from the top of a stack, at most the given number of them. An invocation
whose stack is empty is finished. -/
def settle : Nat → ThreadHandle → Act Machine Signal
  | 0, t => do
    modify (·.cleanup t)
    return .finished
  | fuel + 1, t => do
    match (← get).frameOf t with
    | none =>
      modify (·.cleanup t)
      return .finished
    | some top =>
      match ← ensureReady top with
      | .ok .exhausted =>
        modify fun m => (m.unstack t top).removeFrame top
        settle fuel t
      | .ok _ => return .pending
      | .error failure =>
        Act.report (.unusableFrame top failure)
        modify (·.unstack t top)
        settle fuel t

/-- **Takes an exhausted frame off its stack**, with all exhausted frames below it. -/
def popFrame (t : ThreadHandle) (f : FrameHandle) : Act Machine Signal := do
  let m ← get
  match m.threads.get? t with
  | none =>
    set (m.removeFrame f)
    return .idle
  | some thread =>
    if thread.top? ≠ some f then Act.report (.notOnTop f t)
    set ((m.unstack t f).removeFrame f)
    settle thread.stack.length t

end Machine

end StepScript
