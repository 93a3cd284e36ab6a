import StepScript.Codec.Stream
import StepScript.Script.Label

/-!
# Machine/Context — the objects of a machine

Three kinds of context nest: a *target* stands for an entity and lists the invocations running on
it, a *thread* is one invocation with its call stack, and a *frame* is one script on a call stack,
with a cursor into its commands. Each has variables of its own. Stacks are lists with the innermost
frame, or the most recent return address, at the head; saved bytes have them the other way round.
-/

namespace StepScript

/-- **The context of an entity.** It outlives the invocations it lists. -/
structure Target where
  /-- Absent once the host no longer knows the entity. -/
  entity : Option EntityId
  vars : Vars := ∅
  /-- The invocations on the entity, in the order they were started. -/
  threads : List ThreadHandle := []
deriving DecidableEq

/-- **An invocation**: one resumable run of a script on an entity. -/
structure Thread where
  target : TargetHandle
  script : String
  vars : Vars := ∅
  /-- The call stack, innermost frame first. -/
  stack : List FrameHandle := []
  /-- Handed out since the last load. -/
  claimed : Bool := false
  /-- Handed out at any time. -/
  wasClaimed : Bool := false
deriving DecidableEq

/-- The innermost frame. -/
def Thread.top? (t : Thread) : Option FrameHandle := t.stack.head?

/-- What is known about the command at a frame's cursor. -/
inductive Readiness where
  /-- The cursor moved since the last scan. -/
  | unknown
  /-- The cursor is at a command to run. -/
  | ready
  /-- There is no command to run from the cursor on. -/
  | exhausted
deriving DecidableEq, Inhabited

/-- A call that the host has yet to complete. -/
structure PendingCall where
  function : String
  source : SourceLine
  /-- The variable token that receives the result. -/
  assignTo : Option String
deriving DecidableEq

/-- **A frame**: one script on a call stack. -/
structure Frame where
  thread : ThreadHandle
  script : String
  dialect : Dialect
  commands : List CommandHandle
  /-- The index of the next command. -/
  cursor : Nat := 0
  vars : Vars := ∅
  /-- The arguments the script was called with. -/
  args : List String := []
  gotos : LabelMap
  gosubs : LabelMap
  /-- The indices of the open `gosub` commands, most recent first. -/
  returns : List Nat := []
  /-- The result of the last external call. -/
  result : String := ""
  readiness : Readiness := .unknown
  pending : Option PendingCall := none
deriving DecidableEq

/-- Whether the cursor is past the last command. -/
def Frame.isExhausted (f : Frame) : Bool := f.commands.length ≤ f.cursor

/-- Moves the cursor, at most past the last command. -/
def Frame.moveTo (f : Frame) (index : Nat) : Frame :=
  { f with cursor := min index f.commands.length, readiness := .unknown }

/-! ## Saved form

The claim since the last load and the readiness of a frame are not saved. -/

instance : Binary Command where
  encode c := Binary.encode c.line ++ Binary.encode c.tokens
  decode bs := do
    let (line, bs) ← Binary.decode bs
    let (tokens, bs) ← Binary.decode bs
    return ({ line, tokens }, bs)

instance : Binary Target where
  encode t := Binary.encode t.entity ++ Binary.encode t.vars ++ Binary.encode t.threads
  decode bs := do
    let (entity, bs) ← Binary.decode bs
    let (vars, bs) ← Binary.decode bs
    let (threads, bs) ← Binary.decode bs
    return ({ entity, vars, threads }, bs)

instance : Binary Thread where
  encode t :=
    Binary.encode t.target ++ Binary.encode t.script ++ Binary.encode t.vars ++
      Binary.encode t.stack.reverse ++ Binary.encode t.wasClaimed
  decode bs := do
    let (target, bs) ← Binary.decode bs
    let (script, bs) ← Binary.decode bs
    let (vars, bs) ← Binary.decode bs
    let (stack, bs) ← Binary.decode (α := List FrameHandle) bs
    let (wasClaimed, bs) ← Binary.decode bs
    return ({ target, script, vars, stack := stack.reverse, wasClaimed }, bs)

instance : Binary SourceLine where
  encode s := Binary.encode s.script ++ Binary.encode s.line
  decode bs := do
    let (script, bs) ← Binary.decode bs
    let (line, bs) ← Binary.decode bs
    return ({ script, line }, bs)

instance : Binary PendingCall where
  encode p := Binary.encode p.function ++ Binary.encode p.source ++ Binary.encode p.assignTo
  decode bs := do
    let (function, bs) ← Binary.decode bs
    let (source, bs) ← Binary.decode bs
    let (assignTo, bs) ← Binary.decode bs
    return ({ function, source, assignTo }, bs)

instance : Binary Frame where
  encode f :=
    Binary.encode f.thread ++ Binary.encode f.script ++ Binary.encode f.dialect ++
      Binary.encode f.commands ++ Binary.encode f.cursor ++ Binary.encode f.vars ++
      Binary.encode f.args ++ Binary.encode f.gotos ++ Binary.encode f.gosubs ++
      Binary.encode f.returns.reverse ++ Binary.encode f.result ++ Binary.encode f.pending
  decode bs := do
    let (thread, bs) ← Binary.decode bs
    let (script, bs) ← Binary.decode bs
    let (dialect, bs) ← Binary.decode bs
    let (commands, bs) ← Binary.decode bs
    let (cursor, bs) ← Binary.decode bs
    let (vars, bs) ← Binary.decode bs
    let (args, bs) ← Binary.decode bs
    let (gotos, bs) ← Binary.decode bs
    let (gosubs, bs) ← Binary.decode bs
    let (returns, bs) ← Binary.decode (α := List Nat) bs
    let (result, bs) ← Binary.decode bs
    let (pending, bs) ← Binary.decode bs
    return ({ thread, script, dialect, commands, cursor, vars, args, gotos, gosubs,
              returns := returns.reverse, result, pending }, bs)

end StepScript
