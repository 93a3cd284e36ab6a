import StepScript.Script.Dialect
import StepScript.Script.Label
import StepScript.Script.Structured

/-!
# Script/Basic — scripts

A script is a list of commands with the places of its labels and subroutines. Reading one fails
unless it holds something to run.

* `Script.read` — from text in a dialect, with the warnings about repeated declarations.
* `findScript` — the file of a script name among scripts in memory.
-/

namespace StepScript

/-- A script that is ready to run. -/
structure Script where
  name : String
  dialect : Dialect
  commands : List Command
  gotos : LabelMap
  gosubs : LabelMap
deriving DecidableEq

namespace Script

/-- The commands of a text in a dialect. -/
def commandsOf (name : String) (dialect : Dialect) (text : String) :
    Except Failure (List Command) :=
  match dialect with
  | .line => .ok (readLines text)
  | .json => readStructured name text

/-- **Reads a script**, with the warnings about its declarations. -/
def read (name : String) (dialect : Dialect) (text : String) :
    Except Failure (Script × List Diagnostic) :=
  match commandsOf name dialect text with
  | .error failure => .error failure
  | .ok commands =>
    if commands.any Command.isRunnable then
      let d := Declarations.of name commands
      .ok ({ name, dialect, commands, gotos := d.gotos, gosubs := d.gosubs }, d.warnings)
    else .error (Cause.nothingToRun name).failure

/-- The number of commands to run. -/
def runnableCount (s : Script) : Nat := s.commands.countP Command.isRunnable

end Script

/-- Script files held in memory, by file name. -/
abbrev ScriptFiles := Assoc String String compare

/-- **The file of a script name** among scripts in memory. -/
def findScript (files : ScriptFiles) (name : String) : Except Failure Located :=
  let found := (candidates name).findSome? fun (file, dialect) =>
    (files.find? file).map fun text => { file, dialect, text : Located }
  match found with
  | some located => .ok located
  | none => .error (Cause.notInMemory name).failure

end StepScript
