import StepScript.Number.Fixed
import StepScript.Number.Literal
import StepScript.Text.Case
import StepScript.Text.Space

/-!
# Value — what a piece of text means

Scripts store text only. Where a command needs a truth value, a number or an equality, the text is
read as a `Value` first: nothing, a truth value, an integer, a fraction, or plain text.

* `Value.read` — the reading; each text has exactly one.
* `Value.smartEq` — equality up to coercion: all falsy values are equal, numbers are equal within
  `tolerance`, texts are compared without regard to case.
* `toNumber`, `toNumber?` — the lenient and the strict numeric reading of a text.
-/

namespace StepScript

/-- What a text means. -/
inductive Value where
  | empty
  | bool (b : Bool)
  | int (n : Int)
  | float (x : Number.Double)
  | text (s : String)
deriving DecidableEq

namespace Value

/-- A finite double that starts like a number: with a digit, a sign or a point. -/
def readFinite? (cs : List Char) : Option Float :=
  match cs with
  | [] => none
  | c :: _ =>
    if c.isDigit || c = '-' || c = '+' || c = '.' then Number.readFloat? cs else none

/-- **The meaning of a text**: the first of the readings, in this order, that succeeds. -/
def read (s : String) : Value :=
  if s = "" then .empty
  else if Text.sameKeyword s "true" then .bool true
  else if Text.sameKeyword s "false" then .bool false
  else
    let cs := s.toList
    match Number.readInt? 10 cs with
    | some n => .int n
    | none =>
      match readFinite? cs with
      | some x => .float (.ofFloat x)
      | none =>
        match Number.readHex? cs with
        | some n => .int n
        | none => .text s

/-- Nothing, `false`, zero and the empty text are falsy; all else holds. -/
def truthy : Value → Bool
  | .empty => false
  | .bool b => b
  | .int n => n != 0
  | .float x => !(x.toFloat == 0.0)
  | .text s => s != ""

/-- The number a value stands for; plain text stands for none. -/
def number? : Value → Option Number.Double
  | .empty => some (.ofFloat 0.0)
  | .bool b => some (.ofFloat (if b then 1.0 else 0.0))
  | .int n => some (.ofFloat (Float.ofInt n))
  | .float x => some x
  | .text _ => none

/-- The number a value stands for, to calculate with. -/
def float? (v : Value) : Option Float := v.number?.map Number.Double.toFloat

/-- Fractions are written with six decimal places. -/
def formatFloat (x : Float) : String := Number.fixed 6 x

/-- The text of a value. -/
def display : Value → String
  | .empty => ""
  | .bool b => if b then "true" else "false"
  | .int n => toString n
  | .float x => formatFloat x.toFloat
  | .text s => s

/-! ## Equality up to coercion -/

/-- Numbers closer than this are equal. -/
def tolerance : Float := 1e-6

/-- Equality of numbers within the tolerance. -/
def closeTo (x y : Float) : Bool := (x - y).abs < tolerance

/-- The number in a text once white space at the ends is cut: a finite fraction, else
hexadecimal. -/
def coerce? (s : String) : Option Float :=
  let cs := Text.trimChars s.toList
  if cs.isEmpty then none
  else (readFinite? cs).or ((Number.readHex? cs).map Float.ofInt)

/-- Equality of two optional numbers; a missing one equals nothing. -/
def closeTo? (x y : Option Float) : Bool :=
  match x, y with
  | some x, some y => closeTo x y
  | _, _ => false

/-- **Smart equality.** Two falsy values are equal and a falsy one never equals a truthy one. Two
truthy texts are compared as numbers if both are numbers, else without regard to case; any other
pair is compared as numbers. -/
def smartEq (a b : Value) : Bool :=
  match a.truthy, b.truthy with
  | false, false => true
  | true, true =>
    match a, b with
    | .text s, .text t =>
      match coerce? s, coerce? t with
      | some x, some y => closeTo x y
      | _, _ => Text.lower s == Text.lower t
    | .text s, v => closeTo? (coerce? s) v.float?
    | v, .text s => closeTo? (coerce? s) v.float?
    | v, w => closeTo? v.float? w.float?
  | _, _ => false

end Value

/-- Smart equality of the meanings of two texts. -/
def smartEquals (a b : String) : Bool := (Value.read a).smartEq (Value.read b)

/-- The number a text stands for, zero if it stands for none. -/
def toNumber (s : String) : Float :=
  ((Value.read s).float?.or (Value.coerce? s)).getD 0.0

/-- The number a text stands for, if it stands for one. -/
def toNumber? (s : String) : Option Float :=
  match Value.read s with
  | .text t => Value.coerce? t
  | v => v.float?

end StepScript
