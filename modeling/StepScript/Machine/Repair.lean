import StepScript.Host.Step
import StepScript.Machine.Save

/-!
# Machine/Repair — loading a save

A save may come from a world whose entities have changed, or may be damaged. After reading it,
entities are looked up again, and every object whose links do not hold is removed or listed anew.
Calls that were open when the machine was saved end with an empty result.

* `load` — replaces the machine by a save; on failure the machine is empty.
-/

namespace StepScript.Machine

/-! ## Targets -/

/-- Looks up the entity of a target again. If it is gone, the invocations on it are cancelled. -/
def remapTarget (s : Setting) (g : TargetHandle) : Act Machine Unit := do
  let m ← get
  match m.targets.get? g with
  | none => pure ()
  | some target =>
    match target.entity with
    | none => pure ()
    | some old =>
      match s.remap old with
      | some new => set (m.modifyTarget g fun target => { target with entity := some new })
      | none =>
        Act.report (.entityGone old g target.threads.length)
        let m := m.modifyTarget g fun target => { target with entity := none, threads := [] }
        set (target.threads.foldl cleanup m)

/-! ## Threads -/

/-- Cancels an invocation without target or frames, and lists one that its target does not list. -/
def relinkThread (t : ThreadHandle) : Act Machine Unit := do
  let m ← get
  match m.threads.get? t with
  | none => pure ()
  | some thread =>
    match m.targets.get? thread.target with
    | none =>
      Act.report (.missingTarget t thread.target)
      set (m.cleanup t)
    | some target =>
      if thread.stack.isEmpty then
        Act.report (.noFrames t)
        set (m.cleanup t)
      else if t ∈ target.threads then pure ()
      else
        set (m.modifyTarget thread.target fun target =>
          { target with threads := target.threads ++ [t] })

/-- Takes the invocations that are gone off a target's list. -/
def pruneTarget (g : TargetHandle) : Act Machine Unit :=
  modify fun m => m.modifyTarget g fun target =>
    { target with threads := target.threads.filter m.threads.contains }

/-! ## Frames -/

/-- Removes a frame that its invocation does not stack. -/
def relinkFrame (f : FrameHandle) : Act Machine Unit := do
  let m ← get
  match m.frames.get? f with
  | none => pure ()
  | some frame =>
    if (m.threads.get? frame.thread).any (f ∈ ·.stack) then pure ()
    else
      Act.report (.strayFrame f frame.thread)
      set (m.removeFrame f)

/-- Takes the frames that are gone off a stack, and cancels the invocation if none is left. -/
def pruneThread (t : ThreadHandle) : Act Machine Unit := do
  let m ← get
  match m.threads.get? t with
  | none => pure ()
  | some thread =>
    let live := thread.stack.filter m.frames.contains
    if live.isEmpty then
      Act.report (.lostFrames t)
      set (m.cleanup t)
    else set (m.modifyThread t fun thread => { thread with stack := live })

/-! ## Commands and calls -/

/-- Removes the commands that no frame lists: those whose handles are left when the listed ones are
struck out. -/
def pruneCommands (m : Machine) : Machine :=
  let listed := m.frames.toList.flatMap fun e => e.2.commands
  { m with commands := m.commands.eraseAll (listed.foldl List.erase m.commands.handles) }

/-- Ends an open call with an empty result. -/
def endCall (f : FrameHandle) : Act Machine Unit := do
  match ((← get).frames.get? f).bind Frame.pending with
  | none => pure ()
  | some _ =>
    match ← completeCall f "" with
    | .ok () => pure ()
    | .error failure => Act.report (.unfinishedCall f failure)

/-! ## Loading -/

/-- **Mends a machine** that was just read. -/
def repair (s : Setting) : Act Machine Unit := do
  Act.forEach (remapTarget s) (← get).targets.handles
  Act.forEach relinkThread (← get).threads.handles
  Act.forEach pruneTarget (← get).targets.handles
  Act.forEach relinkFrame (← get).frames.handles
  Act.forEach pruneThread (← get).threads.handles
  modify pruneCommands
  Act.forEach endCall (← get).frames.handles

/-- **Replaces the machine by a save.** On failure the machine is empty. -/
def load (s : Setting) (bs : Bytes) : Act Machine (Except Failure Unit) := do
  match read bs with
  | .error refusal =>
    let failure := refusal.cause.failure
    match refusal.table with
    | some kind => Act.report (.tableRejected kind failure)
    | none => pure ()
    Act.report (.saveRejected failure)
    set (∅ : Machine)
    return .error failure
  | .ok m =>
    set m
    repair s
    return .ok ()

end StepScript.Machine
