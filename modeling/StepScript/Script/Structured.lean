import StepScript.Failure
import StepScript.Json.Reader
import StepScript.Script.Command
import StepScript.Script.Line

/-!
# Script/Structured — the JSON dialect

The document is an object whose member `cmd` lists the commands, each a list of fields. A field that
is no string becomes its JSON text, `null` the empty text. An entry of two fields, the first a
colon, declares a label. Empty entries give no command but count as lines.
-/

namespace StepScript

/-- The member that lists the commands. -/
def commandsKey : String := "cmd"

/-- The first field of a label entry. -/
def labelMarker : String := ":"

/-- The token a field stands for. -/
def fieldToken : Json → String
  | .null => ""
  | .string s => s
  | v => v.compact

/-- The tokens of an entry; a label entry becomes one bracketed token. -/
def entryTokens (fields : List Json) : List String :=
  match fields.map fieldToken with
  | [marker, name] =>
    let trimmed := Text.trim name
    if marker = labelMarker ∧ trimmed ≠ "" then ["[" ++ trimmed ++ "]"] else [marker, name]
  | tokens => tokens

/-- The commands of entries, the first of which has the given number. -/
def entryCommands (script : String) (number : Nat) : List Json → Except Failure (List Command)
  | [] => .ok []
  | entry :: entries =>
    match entry.items? with
    | none => .error ((Cause.entryNotArray number).failureAt ⟨script, number⟩)
    | some fields =>
      match entryCommands script (number + 1) entries with
      | .error failure => .error failure
      | .ok commands =>
        match entryTokens fields with
        | [] => .ok commands
        | tokens => .ok (⟨number, tokens⟩ :: commands)

/-- The commands of a document. -/
def documentCommands (script : String) (document : Json) : Except Failure (List Command) :=
  match (document.member? commandsKey).bind Json.items? with
  | none => .error (Cause.noCommandArray script).failure
  | some entries => entryCommands script 1 entries

/-- **The commands of a script in the JSON dialect.** -/
def readStructured (script text : String) : Except Failure (List Command) :=
  match Json.read (String.ofList (stripMark text.toList)) with
  | .error line => .error (Cause.notJson.failureAt ⟨script, line⟩)
  | .ok document => documentCommands script document

end StepScript
