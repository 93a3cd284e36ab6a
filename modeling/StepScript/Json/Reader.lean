import StepScript.Json.Basic
import StepScript.Number.Digits

/-!
# Json/Reader — reading JSON

A reader takes the characters that are left and either gives a value with the characters after it,
or stops with the characters it had not consumed; the latter give the line of the fault. Documents
may be nested `maxDepth` deep.

A number that is no 64-bit integer is read as the product or quotient of two doubles: its first
digits as a whole number (`Significand`), and a power of ten. This is not always the double nearest
to the decimal.
-/

namespace StepScript.Json

/-- A value and the characters after it, or the characters not consumed when reading stopped. -/
abbrev Reading (α : Type) : Type := Except (List Char) (α × List Char)

/-- White space between the parts of a document. -/
def isBlank (c : Char) : Bool := c = ' ' || c = '\n' || c = '\t' || c = '\r'

/-- The characters after white space. -/
def skipBlanks (cs : List Char) : List Char := cs.dropWhile isBlank

/-- The rest of a keyword. -/
def readRest (value : α) : List Char → List Char → Reading α
  | [], cs => .ok (value, cs)
  | _ :: _, [] => .error []
  | k :: ks, c :: cs => if c = k then readRest value ks cs else .error cs

/-! ## Numbers -/

/-- The greatest whole number that a number's digits are collected in. -/
def maxSignificand : Nat := UInt64.size - 1

/-- Appends a digit, if the result is still small enough. -/
def pushDigit? (significand : Nat) (c : Char) : Option Nat :=
  let next := significand * 10 + (c.toNat - '0'.toNat)
  if next ≤ maxSignificand then some next else none

/-- Collects digits until one does not fit: the collected number, how many digits went in, and how
many were left out. -/
def collect (significand taken : Nat) : List Char → Nat × Nat × Nat
  | [] => (significand, taken, 0)
  | c :: cs =>
    match pushDigit? significand c with
    | some next => collect next (taken + 1) cs
    | none => (significand, taken, (c :: cs).length)

/-- The greatest power of ten that is a double. -/
def maxPower : Nat := 308

/-- The double `10 ^ n` for `n ≤ maxPower`. -/
def power (n : Nat) : Float := Float.ofScientific 1 false n

/-- Scales a double by a power of ten; nothing if the result is too large. A large negative exponent
takes several divisions, and three of them always reach zero. -/
def scale? : Nat → Float → Int → Option Float
  | 0, x, _ => some x
  | rounds + 1, x, exponent =>
    if exponent.natAbs ≤ maxPower then
      if 0 ≤ exponent then
        let y := x * power exponent.natAbs
        if y.isInf then none else some y
      else some (x / power exponent.natAbs)
    else if x == 0.0 then some x
    else if 0 ≤ exponent then none
    else scale? rounds (x / power maxPower) (exponent + maxPower)

/-- The double `± significand · 10 ^ exponent`, read as such. -/
def assemble (negative : Bool) (significand : Nat) (exponent : Int) (rest : List Char) :
    Reading JsonNumber :=
  match scale? 4 (Float.ofNat significand) exponent with
  | some x => .ok (.float (if negative then -x else x), rest)
  | none => .error rest

/-- The greatest exponent whose digits are still collected. -/
def maxExponent : Nat := 2147483647

/-- The part after `e`: a sign and digits. -/
def readExponent (negative : Bool) (significand : Nat) (start : Int) (cs : List Char) :
    Reading JsonNumber :=
  let (down, cs) := match cs with
    | '+' :: rest => (false, rest)
    | '-' :: rest => (true, rest)
    | _ => (false, cs)
  match cs with
  | [] => .error []
  | c :: rest =>
    if c.isDigit then
      let (digits, after) := rest.span Char.isDigit
      let exponent := Number.digitsValue (c :: digits)
      if maxExponent < exponent then
        if significand ≠ 0 ∧ down = false then .error after
        else .ok (.float (if negative then -0.0 else 0.0), after)
      else
        assemble negative significand (if down then start - exponent else start + exponent) after
    else .error rest

/-- What may follow the digits of a number that is a double: an exponent or nothing. -/
def finishFloat (negative : Bool) (significand : Nat) (exponent : Int) :
    List Char → Reading JsonNumber
  | 'e' :: cs => readExponent negative significand exponent cs
  | 'E' :: cs => readExponent negative significand exponent cs
  | cs => assemble negative significand exponent cs

/-- The part after the point: digits, then perhaps an exponent. -/
def readDecimals (negative : Bool) (significand : Nat) (before : Int) (cs : List Char) :
    Reading JsonNumber :=
  let (digits, rest) := cs.span Char.isDigit
  if digits.isEmpty then .error (rest.drop 1)
  else
    let (significand, taken, _) := collect significand 0 digits
    finishFloat negative significand (before - taken) rest

/-- The size of the least integer of 64 bits. -/
def maxNegative : Nat := 9223372036854775808

/-- An integer that fits 64 bits stays exact; minus zero and all else is a double. -/
def wholeNumber (negative : Bool) (significand : Nat) : JsonNumber :=
  if negative then
    if significand = 0 ∨ maxNegative < significand then .float (-(Float.ofNat significand))
    else .negative significand
  else .natural significand

/-- What may follow the whole part of a number. -/
def finishNumber (negative : Bool) (significand omitted : Nat) : List Char → Reading JsonNumber
  | '.' :: cs => readDecimals negative significand omitted cs
  | 'e' :: cs => readExponent negative significand omitted cs
  | 'E' :: cs => readExponent negative significand omitted cs
  | cs =>
    if omitted = 0 then .ok (wholeNumber negative significand, cs)
    else assemble negative significand omitted cs

/-- A number after its sign. A leading zero stands alone. -/
def readNumber (negative : Bool) : List Char → Reading JsonNumber
  | [] => .error []
  | c :: cs =>
    if c = '0' then
      match cs with
      | d :: rest => if d.isDigit then .error rest else finishNumber negative 0 0 cs
      | [] => finishNumber negative 0 0 cs
    else if c.isDigit then
      let (digits, rest) := cs.span Char.isDigit
      let (significand, _, omitted) := collect 0 0 (c :: digits)
      finishNumber negative significand omitted rest
    else .error cs

/-! ## Strings -/

/-- The characters that do not start within the next `n` bytes. -/
def dropBytes : Nat → List Char → List Char
  | 0, cs => cs
  | _ + 1, [] => []
  | n + 1, c :: cs => dropBytes (n + 1 - c.utf8Size) cs

/-- The value of a hexadecimal digit. -/
def hexDigit? (c : Char) : Option Nat :=
  if c.isDigit then some (c.toNat - '0'.toNat)
  else if 'a' ≤ c ∧ c ≤ 'f' then some (c.toNat - 'a'.toNat + 10)
  else if 'A' ≤ c ∧ c ≤ 'F' then some (c.toNat - 'A'.toNat + 10)
  else none

/-- The code unit written by four hexadecimal digits. A fault consumes four bytes. -/
def readUnit (cs : List Char) : Reading Nat :=
  let value := match cs with
    | a :: b :: c :: d :: rest =>
      match hexDigit? a, hexDigit? b, hexDigit? c, hexDigit? d with
      | some a, some b, some c, some d => some (((a * 16 + b) * 16 + c) * 16 + d, rest)
      | _, _, _, _ => none
    | _ => none
  match value with
  | some result => .ok result
  | none => .error (dropBytes 4 cs)

/-- The character of a `\u` escape. A code unit of the upper surrogate range needs a second escape
of the lower one. -/
def readUnicode (cs : List Char) : Reading Char :=
  match readUnit cs with
  | .error rest => .error rest
  | .ok (high, rest) =>
    if 0xDC00 ≤ high ∧ high ≤ 0xDFFF then .error rest
    else if high < 0xD800 ∨ 0xDBFF < high then .ok (Char.ofNat high, rest)
    else
      match rest with
      | '\\' :: 'u' :: rest =>
        match readUnit rest with
        | .error rest => .error rest
        | .ok (low, rest) =>
          if low < 0xDC00 ∨ 0xDFFF < low then .error rest
          else .ok (Char.ofNat (0x10000 + (high - 0xD800) * 0x400 + (low - 0xDC00)), rest)
      | '\\' :: rest => .error (rest.drop 1)
      | rest => .error (rest.drop 1)

/-- The character after a backslash. -/
def readEscape : List Char → Reading Char
  | [] => .error []
  | c :: cs =>
    if c = '"' then .ok ('"', cs)
    else if c = '\\' then .ok ('\\', cs)
    else if c = '/' then .ok ('/', cs)
    else if c = 'b' then .ok (Char.ofNat 8, cs)
    else if c = 'f' then .ok (Char.ofNat 12, cs)
    else if c = 'n' then .ok ('\n', cs)
    else if c = 'r' then .ok ('\r', cs)
    else if c = 't' then .ok ('\t', cs)
    else if c = 'u' then readUnicode cs
    else .error cs

/-- The rest of a string, `read` being the characters so far, last first. Every round consumes a
character, so the input itself is fuel enough. -/
def readString : List Char → List Char → List Char → Reading String
  | [], _, cs => .error cs
  | _ :: _, _, [] => .error []
  | _ :: fuel, read, c :: cs =>
    if c = '"' then .ok (String.ofList read.reverse, cs)
    else if c = '\\' then
      match readEscape cs with
      | .ok (d, rest) => readString fuel (d :: read) rest
      | .error rest => .error rest
    else if c.toNat < 0x20 then .error cs
    else readString fuel (c :: read) cs

/-! ## Documents -/

/-- The rest of an array, `read` being the items so far, last first, and `item` the reader of one.
The input is fuel enough here too. -/
def readItems (item : List Char → Reading Json) : List Char → List Json → List Char → Reading Json
  | [], _, cs => .error cs
  | _ :: fuel, read, cs =>
    let next (cs : List Char) : Reading Json :=
      match item cs with
      | .ok (v, rest) => readItems item fuel (v :: read) rest
      | .error rest => .error rest
    match skipBlanks cs with
    | [] => .error []
    | ']' :: rest => .ok (.array read.reverse, rest)
    | c :: rest =>
      if read.isEmpty then next (c :: rest)
      else if c = ',' then
        match skipBlanks rest with
        | [] => .error []
        | ']' :: rest => .error rest
        | rest => next rest
      else .error rest

/-- A member of an object after its opening quote: the key, a colon and the value. -/
def readMember (item : List Char → Reading Json) (cs : List Char) : Reading (String × Json) :=
  match readString cs [] cs with
  | .error rest => .error rest
  | .ok (key, rest) =>
    match skipBlanks rest with
    | ':' :: rest => (item rest).map fun r => ((key, r.1), r.2)
    | rest => .error (rest.drop 1)

/-- The rest of an object, `read` being the members so far and `first` whether there were none. -/
def readMembers (item : List Char → Reading Json) :
    List Char → Bool → List (String × Json) → List Char → Reading Json
  | [], _, _, cs => .error cs
  | _ :: fuel, first, read, cs =>
    let next (cs : List Char) : Reading Json :=
      match readMember item cs with
      | .ok ((key, value), rest) =>
        readMembers item fuel false (Assoc.put compare key value read) rest
      | .error rest => .error rest
    match skipBlanks cs with
    | [] => .error []
    | '\x7d' :: rest => .ok (.object read, rest)
    | c :: rest =>
      if first then
        if c = '"' then next rest else .error rest
      else if c = ',' then
        match skipBlanks rest with
        | [] => .error []
        | '"' :: rest => next rest
        | _ :: rest => .error rest
      else .error rest

/-- A value that may still be nested `depth - 1` deep. -/
def readValue : Nat → List Char → Reading Json
  | 0, cs => .error cs
  | depth + 1, cs =>
    match skipBlanks cs with
    | [] => .error []
    | c :: cs =>
      if c = 'n' then readRest .null ['u', 'l', 'l'] cs
      else if c = 't' then readRest (.bool true) ['r', 'u', 'e'] cs
      else if c = 'f' then readRest (.bool false) ['a', 'l', 's', 'e'] cs
      else if c = '-' then (readNumber true cs).map fun r => (.number r.1, r.2)
      else if c.isDigit then (readNumber false (c :: cs)).map fun r => (.number r.1, r.2)
      else if c = '"' then (readString cs [] cs).map fun r => (.string r.1, r.2)
      else if c = '[' then
        if depth = 0 then .error cs else readItems (readValue depth) cs [] cs
      else if c = '\x7b' then
        if depth = 0 then .error cs else readMembers (readValue depth) cs true [] cs
      else .error cs

/-- Arrays and objects may be nested this deep. -/
def maxDepth : Nat := 127

/-- The number of line breaks. -/
def breaks (cs : List Char) : Nat := cs.count '\n'

/-- **Reads a document**, with nothing but white space after it. A fault is given by its line. -/
def read (s : String) : Except Nat Json :=
  let cs := s.toList
  let fault (rest : List Char) : Nat := 1 + (breaks cs - breaks rest)
  match readValue (maxDepth + 1) cs with
  | .error rest => .error (fault rest)
  | .ok (v, rest) =>
    match skipBlanks rest with
    | [] => .ok v
    | _ :: rest => .error (fault rest)

end StepScript.Json
