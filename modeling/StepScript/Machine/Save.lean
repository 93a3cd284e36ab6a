import StepScript.Machine.Basic

/-!
# Machine/Save — saved machines

A save is a version number, the four tables and the global variables. Reading one back either gives
all tables or fails; the links between the objects are not checked here but mended afterwards
(`StepScript.Machine.Repair`).
-/

namespace StepScript.Machine

/-- The version of the save format. -/
def saveVersion : UInt32 := 1

/-- **The bytes of a machine.** -/
def save (m : Machine) : Except Failure Bytes :=
  let stream : Except Cause Bytes := do
    let targets ← m.targets.save
    let threads ← m.threads.save
    let frames ← m.frames.save
    let commands ← m.commands.save
    let globals ← m.globals.save
    return Binary.encode saveVersion ++ targets ++ threads ++ frames ++ commands ++ globals
  stream.mapError Cause.failure

/-- Saves a machine to an output with room for a number of bytes; gives the room that is left. -/
def saveWithin (m : Machine) (room : Nat) : Except Failure Nat :=
  match m.save with
  | .error failure => .error failure
  | .ok bytes =>
    if bytes.length ≤ room then .ok (room - bytes.length) else .error Cause.outputFull.failure

/-- Why a save is refused, and the table that could not be read, if it is that. -/
structure Refusal where
  cause : Cause
  table : Option String := none
deriving DecidableEq

/-- Reads one table; the rest of the stream goes to the next reader. -/
def readTable (kind : String) {α : Type} [Binary α] (bs : Bytes) :
    Except Refusal (Table kind α × Bytes) :=
  match Table.load kind bs with
  | (.ok table, rest) => .ok (table, rest)
  | (.error cause, _) => .error { cause, table := some kind }

/-- **Reads the objects of a save**, as they stand. Bytes after the last variable are ignored. -/
def read (bs : Bytes) : Except Refusal Machine :=
  match Stream.readWord bs with
  | (.error fault, _) => .error { cause := .stream fault }
  | (.ok version, bs) =>
    if version ≠ saveVersion then .error { cause := .unsupportedVersion version }
    else do
      let (targets, bs) ← readTable "target" bs
      let (threads, bs) ← readTable "thread" bs
      let (frames, bs) ← readTable "frame" bs
      let (commands, bs) ← readTable "command" bs
      match Vars.load bs with
      | (.error cause, _) => .error { cause }
      | (.ok globals, _) => return { targets, threads, frames, commands, globals }

end StepScript.Machine
