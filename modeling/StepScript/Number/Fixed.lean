import StepScript.Number.Binary

/-!
# Number/Fixed — doubles with a fixed number of decimal places

The exact value is rounded once, to the nearest multiple of `10 ^ -places`, a tie going to the even
one. The sign is kept, also on a zero.
-/

namespace StepScript.Number

/-- The decimal digits of a number, with zeros in front up to a width. -/
def padded (width n : Nat) : List Char :=
  let digits := Nat.toDigits 10 n
  List.replicate (width - digits.length) '0' ++ digits

/-- The number `units · 10 ^ -places` in positional notation. -/
def pointed (places units : Nat) : List Char :=
  let digits := padded (places + 1) units
  let whole := digits.take (digits.length - places)
  let fraction := digits.drop (digits.length - places)
  if places = 0 then whole else whole ++ '.' :: fraction

/-- **A double with a fixed number of decimal places.** -/
def fixed (places : Nat) (x : Float) : String :=
  match Shape.of x with
  | .nan => "NaN"
  | .infinite negative => if negative then "-inf" else "inf"
  | .finite negative mantissa exponent =>
    let (num, den) := ratio mantissa exponent
    let text := pointed places (roundDiv (num * Nat.pow 10 places) den)
    String.ofList (if negative then '-' :: text else text)

end StepScript.Number
