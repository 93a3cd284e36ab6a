import StepScript.Host.Step
import StepScript.Machine.Repair

/-!
# Session — driving invocations

What a host does with a machine from the outside: start scripts by name, and step an invocation
until it finishes, waits, or has used up a number of steps.
-/

namespace StepScript

/-- How a run ended. -/
inductive RunOutcome where
  | finished
  /-- Waiting for the host, or gone. -/
  | idle
  | stepLimit
deriving DecidableEq, Inhabited

/-- What a run did. -/
structure RunReport where
  steps : Nat
  outcome : RunOutcome
deriving DecidableEq

namespace Host

variable {η : Type} (h : Host η)

/-- **Starts a named script on an entity.** -/
def startNamed (entity : EntityId) (name : String) : Act (World η) (Except Failure ThreadHandle) :=
  if Text.isBlank name then return .error Cause.blankScriptName.failure else h.start entity name

/-- Steps an invocation up to `left` more times after `taken` steps; `log` is what they reported,
the latest first. -/
def runFrom (t : ThreadHandle) :
    Nat → Nat → List Diagnostic → Act (World η) (Except Failure RunReport)
  | 0, taken, log => fun w => ⟨.ok ⟨taken, .stepLimit⟩, w, (.stepLimit t taken :: log).reverse⟩
  | left + 1, taken, log => fun w =>
    let r := (h.stepInvocation t).run w
    let log := r.log.reverse ++ log
    match r.value with
    | .ok .pending => runFrom t left (taken + 1) log r.state
    | .ok .idle => ⟨.ok ⟨taken + 1, .idle⟩, r.state, log.reverse⟩
    | .ok .finished => ⟨.ok ⟨taken + 1, .finished⟩, r.state, log.reverse⟩
    | .error failure => ⟨.error failure, r.state, log.reverse⟩

/-- **Steps an invocation until it is idle**, has finished, or the steps are used up. -/
def runUntilIdle (t : ThreadHandle) (maxSteps : Nat) : Act (World η) (Except Failure RunReport) :=
  if maxSteps = 0 then return .error Cause.noSteps.failure else h.runFrom t maxSteps 0 []

end Host

end StepScript
