import StepScript.Number.Binary

/-!
# Number/Shortest — the fewest digits that read back

Every real number close enough to a double rounds to it; these numbers form an interval, closed when
the mantissa is even. `shortest` looks for a decimal in that interval with one digit, then with two,
and so on, and takes the one nearest to the exact value.
-/

namespace StepScript.Number

/-- A positive decimal number `digits · 10 ^ exponent`. -/
structure Decimal where
  digits : Nat
  exponent : Int
deriving Repr, DecidableEq

/-- The number of decimal digits of a natural number. -/
def digitCount (n : Nat) : Nat := (Nat.toDigits 10 n).length

/-- The exponent of the leading decimal digit of `num / den`. -/
def leadingExponent (num den : Nat) : Int :=
  let guess : Int := (digitCount num : Int) - digitCount den
  let reached : Bool := match guess with
    | .ofNat k => den * Nat.pow 10 k ≤ num
    | .negSucc k => den ≤ num * Nat.pow 10 (k + 1)
  if reached then guess else guess - 1

/-- The interval of numbers that round to a double, over the common denominator `den`: the double
itself is `value / den`. -/
structure Rounding where
  low : Nat
  value : Nat
  high : Nat
  den : Nat
  closed : Bool

/-- The interval of `mantissa · 2 ^ exponent`. Below a power of two the next double is only half as
far away. -/
def Rounding.of (mantissa : Nat) (exponent : Int) : Rounding :=
  let below := if mantissa = leadingBit ∧ -1074 < exponent then 1 else 2
  let scale := ratio 1 (exponent - 2)
  { low := (4 * mantissa - below) * scale.1
    value := 4 * mantissa * scale.1
    high := (4 * mantissa + 2) * scale.1
    den := scale.2
    closed := mantissa % 2 = 0 }

/-- Whether `digits · 10 ^ exponent` rounds to the double. -/
def Rounding.holds (r : Rounding) (digits : Nat) (exponent : Int) : Bool :=
  let (x, d) := match exponent with
    | .ofNat k => (digits * Nat.pow 10 k * r.den, 1)
    | .negSucc k => (digits * r.den, Nat.pow 10 (k + 1))
  if r.closed then r.low * d ≤ x && x ≤ r.high * d else r.low * d < x && x < r.high * d

/-- The decimal with last digit at `10 ^ exponent` that reads back, nearest first, if there is one;
of two at the same distance the even one. -/
def Rounding.onGrid? (r : Rounding) (exponent : Int) : Option Decimal :=
  let (num, den) := match exponent with
    | .ofNat k => (r.value, r.den * Nat.pow 10 k)
    | .negSucc k => (r.value * Nat.pow 10 (k + 1), r.den)
  let below := num / den
  let near := roundDiv num den
  let far := if near = below then below + 1 else below
  if r.holds near exponent then some ⟨near, exponent⟩
  else if r.holds far exponent then some ⟨far, exponent⟩
  else none

/-- Drops zeros at the end, at most `fuel` of them. -/
def Decimal.trimZeros : Nat → Decimal → Decimal
  | 0, d => d
  | fuel + 1, d =>
    if d.digits % 10 = 0 ∧ d.digits ≠ 0 then trimZeros fuel ⟨d.digits / 10, d.exponent + 1⟩ else d

/-- **The shortest decimal that reads back** as the positive double `mantissa · 2 ^ exponent`; among
the shortest the nearest. Seventeen digits always suffice. -/
def shortest (mantissa : Nat) (exponent : Int) : Decimal :=
  let r := Rounding.of mantissa exponent
  let lead := leadingExponent r.value r.den
  let found := (List.range 17).findSome? fun (n : Nat) => r.onGrid? (lead - n)
  (found.getD ⟨r.value / r.den, 0⟩).trimZeros 20

end StepScript.Number
