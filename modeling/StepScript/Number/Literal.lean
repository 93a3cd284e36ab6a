import StepScript.Number.Digits

/-!
# Number/Literal — reading numbers from text

Integers are read in a base with an optional sign and a range check; decimal fractions are read as a
whole number times a power of ten and rounded once, to the nearest double. White space, digit
separators and any character left over make a reading fail.

* `readInt?` — a signed integer in a base, within the range of 64-bit two's complement.
* `readUnsigned?` — a non-negative integer in a base, below `2 ^ 64`.
* `Scientific.read?` — a decimal fraction such as `-.5`, `1.` or `2e-3`.
-/

namespace StepScript.Number

/-! ## Integers -/

/-- The least 64-bit integer. -/
def minInt : Int := -9223372036854775808

/-- The greatest 64-bit integer. -/
def maxInt : Int := 9223372036854775807

/-- Keeps an integer that fits 64-bit two's complement. -/
def inRange? (n : Int) : Option Int := if minInt ≤ n ∧ n ≤ maxInt then some n else none

/-- **A signed integer**: an optional sign, then digits, within the 64-bit range. -/
def readInt? (base : Nat) : List Char → Option Int
  | '-' :: cs => (readDigits? base cs).bind fun n => inRange? (-(n : Int))
  | '+' :: cs => (readDigits? base cs).bind fun n => inRange? n
  | cs => (readDigits? base cs).bind fun n => inRange? n

/-- The digits of an integer come after a minus, or after a plus that may be left out. -/
theorem readInt?_cases (base : Nat) (cs : List Char) :
    (∃ ds, cs = '-' :: ds ∧
        readInt? base cs = (readDigits? base ds).bind fun n => inRange? (-(n : Int))) ∨
      ∃ ds, (cs = '+' :: ds ∨ cs = ds) ∧
        readInt? base cs = (readDigits? base ds).bind fun n => inRange? n := by
  fun_cases readInt? base cs with
  | case1 ds => exact .inl ⟨ds, rfl, rfl⟩
  | case2 ds => exact .inr ⟨ds, .inl rfl, rfl⟩
  | case3 => exact .inr ⟨cs, .inr rfl, rfl⟩

/-- **A non-negative integer**: an optional plus, then digits, below `2 ^ 64`. -/
def readUnsigned? (base : Nat) (cs : List Char) : Option UInt64 :=
  let digits := match cs with
    | '+' :: rest => rest
    | _ => cs
  (readDigits? base digits).bind fun n => if n < UInt64.size then some (UInt64.ofNat n) else none

/-- The characters after `0x` or `0X`. -/
def hexBody? : List Char → Option (List Char)
  | '0' :: 'x' :: cs => some cs
  | '0' :: 'X' :: cs => some cs
  | _ => none

/-- The opposite of a 64-bit integer, going round in two's complement: the least one is its own. -/
def opposite (n : Int) : Int := (-n).bmod UInt64.size

/-- **A hexadecimal literal**: an optional minus, the mark `0x`, then a signed integer in base
sixteen, of which the minus gives the opposite. -/
def readHex? : List Char → Option Int
  | '-' :: cs => (hexBody? cs).bind fun body => (readInt? 16 body).map opposite
  | cs => (hexBody? cs).bind fun body => readInt? 16 body

/-! ## Decimal fractions -/

/-- A decimal fraction as written: `± coefficient · 10 ^ exponent`. -/
structure Scientific where
  negative : Bool
  coefficient : Nat
  exponent : Int
deriving Repr, DecidableEq

/-- The leading decimal digits and what follows them. -/
def spanDigits (cs : List Char) : List Char × List Char := cs.span Char.isDigit

/-- An exponent of this size takes no further digits. -/
def exponentBound : Nat := 65536

/-- The exponent that `cs` continues, `e` being the one before it. Past the bound digits are only
checked. -/
def exponentAfter? (e : Nat) : List Char → Option Nat
  | [] => some e
  | c :: cs =>
    (digit? 10 c).bind fun d => exponentAfter? (if e < exponentBound then 10 * e + d else e) cs

/-- The exponent written by a non-empty run of decimal digits. -/
def exponentDigits? : List Char → Option Nat
  | [] => none
  | cs => exponentAfter? 0 cs

/-- The exponent part, which must be the whole rest: nothing, or `e`, a sign and digits. -/
def readExponent? : List Char → Option Int
  | [] => some 0
  | c :: cs =>
    if c = 'e' ∨ c = 'E' then
      match cs with
      | '-' :: ds => (exponentDigits? ds).map fun n => -(n : Int)
      | '+' :: ds => (exponentDigits? ds).map fun n => (n : Int)
      | ds => (exponentDigits? ds).map fun n => (n : Int)
    else none

/-- An unsigned fraction: digits, a point and digits, at least one digit in all, then an
exponent. -/
def readFraction? (negative : Bool) (cs : List Char) : Option Scientific :=
  let (whole, rest) := spanDigits cs
  let (fraction, rest) := match rest with
    | '.' :: ds => spanDigits ds
    | _ => ([], rest)
  if whole.isEmpty && fraction.isEmpty then none
  else (readExponent? rest).map fun e =>
    { negative, coefficient := digitsValue (whole ++ fraction), exponent := e - fraction.length }

/-- **A decimal fraction**: an optional sign, then `readFraction?`. -/
def Scientific.read? : List Char → Option Scientific
  | '-' :: cs => readFraction? true cs
  | '+' :: cs => readFraction? false cs
  | cs => readFraction? false cs

/-- The double nearest to a decimal fraction; ties go to the even one. -/
def Scientific.toFloat (s : Scientific) : Float :=
  let magnitude := Float.ofScientific s.coefficient (s.exponent < 0) s.exponent.natAbs
  if s.negative then -magnitude else magnitude

/-- Whether the sizes alone put a fraction at `2 ^ 1024` or above, where no finite double is:
`10 ^ n` is at least `2 ^ (3 * n)`, and `10 ^ 3` is less than `2 ^ 10`. -/
def Scientific.isHuge (s : Scientific) : Bool :=
  s.coefficient != 0 &&
    match s.exponent with
    | .ofNat n => 1024 ≤ s.coefficient.log2 + 3 * n
    | .negSucc n => 1024 + (10 * (n + 1) + 2) / 3 ≤ s.coefficient.log2

/-- The double written by a decimal fraction, if it is finite. -/
def readFloat? (cs : List Char) : Option Float :=
  (((Scientific.read? cs).filter (!·.isHuge)).map Scientific.toFloat).filter Float.isFinite

end StepScript.Number
