import StepScript.Text.Space

/-!
# Script/Token — splitting a line into tokens

White space separates tokens. A quoted span is one token, with a doubled quote standing for a quote;
a bracketed span is one token, brackets included; a semicolon outside both ends the line. Anything
else is a word, which runs up to white space or a semicolon.

`scan` reads a line from left to right; `Mode` is the kind of token it is inside of.
-/

namespace StepScript

/-- Where a scan stands: between tokens, or inside one whose characters so far, last first, are
kept. -/
inductive Mode where
  | gap
  | quoted (read : List Char)
  | bracketed (read : List Char)
  | word (read : List Char)

/-- The tokens of the rest of a line. A quoted or bracketed span may end with the line. -/
def scan : Mode → List Char → List (List Char)
  | .gap, [] => []
  | .gap, c :: cs =>
    if Text.isSpace c then scan .gap cs
    else if c = ';' then []
    else if c = '"' then scan (.quoted []) cs
    else if c = '[' then scan (.bracketed ['[']) cs
    else scan (.word [c]) cs
  | .quoted read, [] => [read.reverse]
  | .quoted read, '"' :: '"' :: cs => scan (.quoted ('"' :: read)) cs
  | .quoted read, c :: cs =>
    if c = '"' then read.reverse :: scan .gap cs else scan (.quoted (c :: read)) cs
  | .bracketed read, [] => [read.reverse]
  | .bracketed read, c :: cs =>
    if c = ']' then (c :: read).reverse :: scan .gap cs else scan (.bracketed (c :: read)) cs
  | .word read, [] => [read.reverse]
  | .word read, c :: cs =>
    if Text.isSpace c then read.reverse :: scan .gap cs
    else if c = ';' then [read.reverse]
    else scan (.word (c :: read)) cs

/-- **The tokens of a line.** -/
def tokenize (line : String) : List String := (scan .gap line.toList).map String.ofList

end StepScript
