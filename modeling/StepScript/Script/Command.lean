import StepScript.Text.Case
import StepScript.Text.Space

/-!
# Script/Command — one line of a script

A command is the tokens of one line with the number of that line. A single token in square brackets
is a label: it marks a place and is not run. A first token that starts with a semicolon makes the
command a comment.
-/

namespace StepScript

/-- One line of a script: its 1-based number and its tokens. -/
structure Command where
  line : Nat
  tokens : List String
deriving DecidableEq, Inhabited

/-- The characters between a leading `[` and a trailing `]`. -/
def unbracket? : List Char → Option (List Char)
  | '[' :: cs => if cs.getLast? = some ']' then some cs.dropLast else none
  | _ => none

/-- The name inside a bracketed token, if there is one and it is not blank. -/
def labelInner? (token : String) : Option String :=
  (unbracket? token.toList).bind fun inner =>
    let name := Text.trimChars inner
    if name.isEmpty then none else some (String.ofList name)

/-- **The lookup key of a label or subroutine**: white space and one pair of brackets around the
name do not count, nor does case. -/
def labelKey (name : String) : String :=
  let trimmed := Text.trimChars name.toList
  let inner := (unbracket? trimmed).getD trimmed
  Text.lower (String.ofList (Text.trimChars inner))

namespace Command

/-- The name of the label this command is, if it is one. -/
def label? (c : Command) : Option String :=
  match c.tokens with
  | [token] => labelInner? token
  | _ => none

/-- Whether this command is a label. -/
def isLabel (c : Command) : Bool := c.label?.isSome

/-- **Whether there is something to run**: at least one token, no label and no comment. -/
def isRunnable (c : Command) : Bool :=
  match c.tokens with
  | [] => false
  | first :: _ => !c.isLabel && first.toList.head? != some ';'

/-- Whether the first token is the keyword, in any case. -/
def startsWith (c : Command) (keyword : String) : Bool :=
  match c.tokens with
  | [] => false
  | first :: _ => Text.sameKeyword first keyword

end Command

end StepScript
