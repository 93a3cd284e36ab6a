import StepScript.Assoc
import StepScript.Diagnostic
import StepScript.Script.Command

/-!
# Script/Label — where labels and subroutines are declared

A label is declared by its own line, a subroutine by a `beginsub` line with a name. Both are found
by key (`labelKey`), and the first declaration of a key counts. `declare` takes one command into
account; `Declarations.of` folds it over a script.
-/

namespace StepScript

/-- A map from label keys to the index of the declaring command. -/
abbrev LabelMap := Assoc String Nat compare

/-- The keyword that opens a subroutine. -/
def beginsub : String := "beginsub"

/-- The keyword that closes a subroutine. -/
def endsub : String := "endsub"

/-- The declarations of a script, and what was wrong with the repeated ones. -/
structure Declarations where
  gotos : LabelMap := ∅
  gosubs : LabelMap := ∅
  warnings : List Diagnostic := []

namespace Declarations

/-- Enters a key unless it is there. -/
def enter (m : LabelMap) (key : String) (index : Nat) : LabelMap :=
  if m.contains key then m else m.insert key index

/-- Takes the command at an index into account. -/
def declare (script : String) (d : Declarations) (index : Nat) (c : Command) : Declarations :=
  let source : SourceLine := ⟨script, c.line⟩
  match c.label? with
  | some name =>
    { d with
      gotos := enter d.gotos (labelKey name) index
      warnings := d.warnings ++
        if d.gotos.contains (labelKey name) then [.duplicateLabel source name] else [] }
  | none =>
    if c.startsWith beginsub then
      match c.tokens[1]? with
      | none => { d with warnings := d.warnings ++ [.namelessSubroutine source] }
      | some name =>
        { d with
          gosubs := enter d.gosubs (labelKey name) index
          warnings := d.warnings ++
            if d.gosubs.contains (labelKey name) then [.duplicateSubroutine source name] else [] }
    else d

/-- Takes commands into account, the first of which has the given index. -/
def declareAll (script : String) : Declarations → Nat → List Command → Declarations
  | d, _, [] => d
  | d, index, c :: cs => declareAll script (d.declare script index c) (index + 1) cs

/-- **The declarations of a script.** -/
def of (script : String) (commands : List Command) : Declarations :=
  declareAll script {} 0 commands

end Declarations

end StepScript
