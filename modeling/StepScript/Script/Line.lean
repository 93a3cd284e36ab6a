import StepScript.Script.Command
import StepScript.Script.Token

/-!
# Script/Line — the line dialect

One command per physical line. A line that holds nothing but a bracketed name, and perhaps a
comment, is a label; its name is kept without the white space around it. Blank lines and comments
give no command but count as lines.
-/

namespace StepScript

/-- The text without a byte order mark at its start. -/
def stripMark : List Char → List Char
  | c :: cs => if c = Char.ofNat 0xFEFF then cs else c :: cs
  | [] => []

/-- Drops a carriage return from a line that is held last character first. -/
def dropReturn : List Char → List Char
  | '\r' :: cs => cs
  | cs => cs

/-- The rest of the lines, `read` being the characters of the current one, last first. A line ends
with a line feed, which a carriage return may precede; an empty last line does not count. -/
def linesFrom (read : List Char) : List Char → List (List Char)
  | [] => if read.isEmpty then [] else [read.reverse]
  | c :: cs =>
    if c = '\n' then (dropReturn read).reverse :: linesFrom [] cs else linesFrom (c :: read) cs

/-- **The physical lines of a text.** -/
def physicalLines (s : String) : List String :=
  (linesFrom [] (stripMark s.toList)).map String.ofList

/-- What may follow a label on its line: white space, then nothing or a comment. -/
def endsLine (cs : List Char) : Bool :=
  match cs.dropWhile Text.isSpace with
  | [] => true
  | c :: _ => c = ';'

/-- The name of a label line, trimmed: a bracketed text without brackets inside, alone on its
line. -/
def labelLine? (line : String) : Option String :=
  match line.toList.dropWhile Text.isSpace with
  | '[' :: cs =>
    match cs.span fun c => c != '[' && c != ']' with
    | (inner, ']' :: rest) =>
      let name := Text.trimChars inner
      if endsLine rest && !name.isEmpty then some (String.ofList name) else none
    | _ => none
  | _ => none

/-- The tokens of a physical line. -/
def lineTokens (line : String) : List String :=
  match labelLine? line with
  | some name => ["[" ++ name ++ "]"]
  | none => tokenize line

/-- The commands of lines, the first of which has the given number. -/
def commandsFrom (number : Nat) : List String → List Command
  | [] => []
  | line :: lines =>
    match lineTokens line with
    | [] => commandsFrom (number + 1) lines
    | tokens => ⟨number, tokens⟩ :: commandsFrom (number + 1) lines

/-- **The commands of a script in the line dialect.** -/
def readLines (text : String) : List Command := commandsFrom 1 (physicalLines text)

end StepScript
