import StepScript.Assoc
import StepScript.Number.Shortest

/-!
# Json/Basic — JSON documents and their compact text

Objects keep their members in key order, one per key. Integers that fit 64 bits keep their exact
value; every other number is a double and is written with the fewest digits that read back.

* `Json.compact` — the text without white space.
* `Json.quote` — a text as a JSON string.
-/

namespace StepScript

/-- A number of a document: a natural number below `2 ^ 64`, a negative integer of 64-bit range, or
a finite double. -/
inductive JsonNumber where
  | natural (n : Nat)
  | negative (magnitude : Nat)
  | float (x : Float)
deriving DecidableEq

/-- A JSON document. -/
inductive Json where
  | null
  | bool (b : Bool)
  | number (n : JsonNumber)
  | string (s : String)
  | array (items : List Json)
  | object (members : List (String × Json))

namespace Json

/-! ## Numbers -/

/-- Where positional notation ends: it is used when the leading digit stands at `10 ^ e` with
`leastPositional ≤ e < mostPositional`. -/
def leastPositional : Int := -5

/-- See `leastPositional`. -/
def mostPositional : Int := 16

/-- Digits with a point after the first `whole` of them; at least one digit on either side. -/
def placePoint (digits : List Char) (whole : Int) : List Char :=
  match whole with
  | .ofNat k =>
    if k = 0 then '0' :: '.' :: digits
    else if digits.length ≤ k then
      digits ++ List.replicate (k - digits.length) '0' ++ ['.', '0']
    else digits.take k ++ '.' :: digits.drop k
  | .negSucc k => '0' :: '.' :: List.replicate (k + 1) '0' ++ digits

/-- Scientific notation: one digit before the point, no point before nothing, a signed exponent. -/
def scientific (digits : List Char) (exponent : Int) : List Char :=
  let mantissa := match digits with
    | [] => []
    | [d] => [d]
    | d :: ds => d :: '.' :: ds
  let sign := if exponent < 0 then '-' else '+'
  mantissa ++ 'e' :: sign :: Nat.toDigits 10 exponent.natAbs

/-- The text of a positive decimal. -/
def decimalText (d : Number.Decimal) : List Char :=
  let digits := Nat.toDigits 10 d.digits
  let lead := d.exponent + digits.length - 1
  if leastPositional ≤ lead ∧ lead < mostPositional then placePoint digits (lead + 1)
  else scientific digits lead

/-- The text of a double: its sign and the shortest decimal that reads back. -/
def floatText (x : Float) : String :=
  match Number.Shape.of x with
  | .finite negative mantissa exponent =>
    let magnitude :=
      if mantissa = 0 then ['0', '.', '0'] else decimalText (Number.shortest mantissa exponent)
    String.ofList (if negative then '-' :: magnitude else magnitude)
  | _ => "null"

end Json

/-- The text of a number. -/
def JsonNumber.text : JsonNumber → String
  | .natural n => toString n
  | .negative magnitude => "-" ++ toString magnitude
  | .float x => Json.floatText x

namespace Json

/-! ## Text -/

/-- A character inside a JSON string: quote, backslash and control characters are escaped. -/
def escapeChar (c : Char) : List Char :=
  if c = '"' then ['\\', '"']
  else if c = '\\' then ['\\', '\\']
  else if c = '\n' then ['\\', 'n']
  else if c = '\t' then ['\\', 't']
  else if c = '\r' then ['\\', 'r']
  else if c = Char.ofNat 8 then ['\\', 'b']
  else if c = Char.ofNat 12 then ['\\', 'f']
  else if c.toNat < 0x20 then
    let digits := Nat.toDigits 16 c.toNat
    '\\' :: 'u' :: (List.replicate (4 - digits.length) '0' ++ digits)
  else [c]

/-- **A text as a JSON string.** -/
def quote (s : String) : String := "\"" ++ String.ofList (s.toList.flatMap escapeChar) ++ "\""

mutual

/-- **The compact text of a document.** -/
def compact : Json → String
  | .null => "null"
  | .bool b => if b then "true" else "false"
  | .number n => n.text
  | .string s => quote s
  | .array items => "[" ++ ",".intercalate (compactItems items) ++ "]"
  | .object members => "\x7b" ++ ",".intercalate (compactMembers members) ++ "\x7d"

/-- The compact texts of the items of an array. -/
def compactItems : List Json → List String
  | [] => []
  | item :: items => compact item :: compactItems items

/-- The compact texts of the members of an object. -/
def compactMembers : List (String × Json) → List String
  | [] => []
  | (key, value) :: members => (quote key ++ ":" ++ compact value) :: compactMembers members

end

/-- The member of an object. -/
def member? (key : String) : Json → Option Json
  | .object members => Assoc.lookup key members
  | _ => none

/-- The items of an array. -/
def items? : Json → Option (List Json)
  | .array items => some items
  | _ => none

end Json

end StepScript
