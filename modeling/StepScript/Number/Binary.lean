/-!
# Number/Binary — a double as an exact number

A finite double is a whole number times a power of two. Printing works on that exact value: `Shape`
takes a double apart, and `roundDiv` is the one place where a quotient is rounded.

`Double` is a double as it is stored. It says more than a `Float`, to which all bits that stand for
no number are the same.
-/

namespace StepScript.Number

/-- **A stored double**: its 64 bits. -/
structure Double where
  bits : UInt64
deriving DecidableEq

/-- The double with the value of a `Float`. -/
def Double.ofFloat (x : Float) : Double := ⟨x.toBits⟩

/-- What a double is in calculations. -/
def Double.toFloat (x : Double) : Float := Float.ofBits x.bits

/-- What a double is: not a number, an infinity, or exactly `± mantissa · 2 ^ exponent`. -/
inductive Shape where
  | nan
  | infinite (negative : Bool)
  | finite (negative : Bool) (mantissa : Nat) (exponent : Int)
deriving Repr, DecidableEq

/-- The number of fraction bits of a double. -/
def fractionBits : Nat := 52

/-- The weight of the bit before the fraction of a normal double. -/
def leadingBit : Nat := Nat.pow 2 fractionBits

/-- Reads a double off its bits. -/
def Shape.ofBits (bits : Nat) : Shape :=
  let negative := bits / (2048 * leadingBit) % 2 == 1
  let biased : Nat := bits / leadingBit % 2048
  let fraction : Nat := bits % leadingBit
  if biased = 2047 then
    if fraction = 0 then .infinite negative else .nan
  else if biased = 0 then .finite negative fraction (-1074)
  else .finite negative (leadingBit + fraction) ((biased : Int) - 1075)

/-- Takes a double apart. -/
def Shape.of (x : Float) : Shape := .ofBits x.toBits.toNat

/-- The quotient rounded to a whole number; a tie goes to the even neighbour. -/
def roundDiv (num den : Nat) : Nat :=
  let q := num / den
  let r := num % den
  if den < 2 * r ∨ (2 * r = den ∧ q % 2 = 1) then q + 1 else q

/-- The numerator and denominator of `mantissa · 2 ^ exponent`. -/
def ratio (mantissa : Nat) (exponent : Int) : Nat × Nat :=
  match exponent with
  | .ofNat k => (mantissa * Nat.pow 2 k, 1)
  | .negSucc k => (mantissa, Nat.pow 2 (k + 1))

/-- The value of a double that is a natural number, minus zero included. -/
def toNat? (x : Float) : Option Nat :=
  match Shape.of x with
  | .finite negative mantissa exponent =>
    let (num, den) := ratio mantissa exponent
    if num % den = 0 ∧ (negative = false ∨ num = 0) then some (num / den) else none
  | _ => none

end StepScript.Number
