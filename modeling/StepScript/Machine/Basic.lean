import StepScript.Act
import StepScript.Machine.Context

/-!
# Machine/Basic — the state of all running scripts

A machine holds the targets, threads, frames and commands in four tables, and the global variables.
Ownership runs downwards: a target lists its threads, a thread stacks its frames, a frame lists its
commands. Every object also names its owner, and the operations keep both directions in step.

* `cleanup` — removes one invocation with all it owns.
* `claimNext` — hands out an invocation that nobody has claimed.
-/

namespace StepScript

/-- **The state of all running scripts.** -/
structure Machine where
  targets : Table "target" Target := ∅
  threads : Table "thread" Thread := ∅
  frames : Table "frame" Frame := ∅
  commands : Table "command" Command := ∅
  globals : Vars := ∅
deriving DecidableEq

namespace Machine

instance : EmptyCollection Machine := ⟨{}⟩

instance : Inhabited Machine := ⟨∅⟩

/-! ## Updates of one object -/

/-- Changes a target. -/
def modifyTarget (m : Machine) (h : TargetHandle) (f : Target → Target) : Machine :=
  { m with targets := m.targets.modify h f }

/-- Changes a thread. -/
def modifyThread (m : Machine) (h : ThreadHandle) (f : Thread → Thread) : Machine :=
  { m with threads := m.threads.modify h f }

/-- Changes a frame. -/
def modifyFrame (m : Machine) (h : FrameHandle) (f : Frame → Frame) : Machine :=
  { m with frames := m.frames.modify h f }

/-- Moves the cursor of a frame. -/
def moveCursor (m : Machine) (h : FrameHandle) (index : Nat) : Machine :=
  m.modifyFrame h (·.moveTo index)

/-- Takes a frame off the stack of a thread, wherever it stands. -/
def unstack (m : Machine) (t : ThreadHandle) (f : FrameHandle) : Machine :=
  m.modifyThread t fun thread => { thread with stack := thread.stack.filter (· ≠ f) }

/-! ## Removal -/

/-- Removes a frame with its commands. -/
def removeFrame (m : Machine) (h : FrameHandle) : Machine :=
  match m.frames.get? h with
  | none => m
  | some frame =>
    { m with frames := m.frames.erase h, commands := m.commands.eraseAll frame.commands }

/-- **Cancels an invocation**: takes it off its target's list and removes it with its frames. An
unknown handle is ignored. -/
def cleanup (m : Machine) (h : ThreadHandle) : Machine :=
  match m.threads.get? h with
  | none => m
  | some thread =>
    let m := { m with threads := m.threads.erase h }
    let m := m.modifyTarget thread.target fun target =>
      { target with threads := target.threads.filter (· ≠ h) }
    thread.stack.foldl removeFrame m

/-- The machine without objects and variables. -/
def reset (_ : Machine) : Machine := ∅

/-! ## Questions -/

/-- The target of an entity. -/
def targetFor (m : Machine) (e : EntityId) : Option TargetHandle :=
  m.targets.findHandle? fun target => target.entity = some e

/-- The invocations on an entity, in the order they were started. -/
def invocationsFor (m : Machine) (e : EntityId) : List ThreadHandle :=
  match (m.targetFor e).bind m.targets.get? with
  | some target => target.threads
  | none => []

/-- All invocations, by handle. -/
def invocations (m : Machine) : List ThreadHandle := m.threads.handles

/-- Whether an invocation is live. -/
def isLive (m : Machine) (h : ThreadHandle) : Bool := m.threads.contains h

/-- The innermost frame of an invocation. -/
def frameOf (m : Machine) (h : ThreadHandle) : Option FrameHandle :=
  (m.threads.get? h).bind Thread.top?

/-- The value of a global variable; the case of its name does not count. -/
def global? (m : Machine) (name : String) : Option String := m.globals.find? (Text.lower name)

/-- Sets a global variable. -/
def setGlobal (m : Machine) (name value : String) : Machine :=
  { m with globals := m.globals.insert (Text.lower name) value }

/-! ## Claims -/

/-- **Hands out an invocation** that was never handed out: the one with the smallest handle. -/
def claimNext (m : Machine) : Option ThreadHandle × Machine :=
  match m.threads.findHandle? fun t => !(t.claimed || t.wasClaimed) with
  | none => (none, m)
  | some h => (some h, m.modifyThread h fun t => { t with claimed := true, wasClaimed := true })

end Machine

end StepScript
