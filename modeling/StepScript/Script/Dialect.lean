import StepScript.Text.Case

/-!
# Script/Dialect — the two notations for scripts

A script file is written line by line (`.ini`) or as a JSON document (`.json`). A script is asked
for by name; the name decides which files are tried and in what order.
-/

namespace StepScript

/-- The notation a script is written in. -/
inductive Dialect where
  | line
  | json
deriving DecidableEq, Inhabited

namespace Dialect

/-- The file extension of a dialect. -/
def extension : Dialect → String
  | .line => "ini"
  | .json => "json"

/-- The dialect of a file extension, in any case. -/
def ofExtension? (s : String) : Option Dialect :=
  if Text.sameKeyword s "ini" then some .line
  else if Text.sameKeyword s "json" then some .json
  else none

/-- The order in which dialects are tried. -/
def preference : List Dialect := [.line, .json]

end Dialect

/-- The characters after the last point, if there is a point. -/
def extension? (name : String) : Option String :=
  let cs := name.toList
  if '.' ∈ cs then some (String.ofList (cs.reverse.takeWhile (· ≠ '.')).reverse) else none

/-- **The files tried for a script name**: the name itself if it ends in a known extension,
otherwise the name with each extension in turn. -/
def candidates (name : String) : List (String × Dialect) :=
  match (extension? name).bind Dialect.ofExtension? with
  | some dialect => [(name, dialect)]
  | none => Dialect.preference.map fun d => (name ++ "." ++ d.extension, d)

/-- A script file that was found. -/
structure Located where
  file : String
  dialect : Dialect
  text : String
deriving DecidableEq, Inhabited

end StepScript
