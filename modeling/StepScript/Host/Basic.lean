import StepScript.Machine.Plan

/-!
# Host/Basic — the machine's surroundings

A host offers functions and scripts. Both are computations over a *world*: the machine and whatever
else the host keeps. A host may therefore run operations of the machine while it is being asked,
also on the very invocation that asks; most hosts leave the machine alone.

* `FunctionTable` — functions by name, in any case.
-/

namespace StepScript

/-- A machine and the host's own state. -/
structure World (η : Type) where
  machine : Machine := ∅
  own : η
deriving DecidableEq

/-- The host's answer to a call: a result, or the promise to complete the call later. -/
inductive Completion where
  | ready (value : String)
  | pending
deriving DecidableEq

/-- **A host**: what it knows, the functions it offers and the scripts it finds. -/
structure Host (η : Type) extends Setting where
  dispatch : Call → Act (World η) (Except Failure Completion)
  load : String → Act (World η) (Except Failure Located)

namespace World

variable {η α : Type}

/-- Runs a computation on the machine of a world. -/
def onMachine (x : Act Machine α) : Act (World η) α :=
  x.focus World.machine fun w m => { w with machine := m }

instance : MonadLift (Act Machine) (Act (World η)) := ⟨onMachine⟩

/-- Changes the machine of a world. -/
def modifyMachine (f : Machine → Machine) : Act (World η) Unit :=
  modify fun w => { w with machine := f w.machine }

/-- The machine of a world. -/
def getMachine : Act (World η) Machine := return (← get).machine

end World

/-! ## Functions -/

/-- A host without functions refuses every call. -/
def noFunctions {η : Type} (call : Call) : Act (World η) (Except Failure Completion) :=
  return .error (Cause.noFunctions call.name).failure

/-- What a function of the host does. -/
abbrev Function (η : Type) := Call → Act (World η) (Except Failure Completion)

/-- Functions by name; names do not distinguish case. -/
abbrev FunctionTable (η : Type) := Assoc String (Function η) compare

namespace FunctionTable

variable {η : Type}

/-- Adds a function; one of equal name is replaced. -/
def register (t : FunctionTable η) (name : String) (f : Function η) : FunctionTable η :=
  t.insert (Text.lower name) f

/-- The names of the functions, in order. -/
def names (t : FunctionTable η) : List String := t.keys

/-- Calls the function a call names. -/
def dispatch (t : FunctionTable η) : Function η := fun call =>
  match t.find? (Text.lower call.name) with
  | some f => f call
  | none => return .error (Cause.unknownFunction call.name).failure

end FunctionTable

end StepScript
