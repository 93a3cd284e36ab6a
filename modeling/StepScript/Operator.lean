import StepScript.Value

/-!
# Operator — the operators of `set` and `if`

`applyOperator` is the right-hand side of a five-token `set`, `compareTexts` the condition of an
`if`. Both take their operands as text.
-/

namespace StepScript

/-- Why an operator gives no value. -/
inductive OperatorFault where
  | divisionByZero
  | unknown (operator : String)
deriving DecidableEq, Repr

/-- The wording of an operator's fault. -/
def OperatorFault.message : OperatorFault → String
  | .divisionByZero => "division by zero"
  | .unknown operator => "unknown operator \"" ++ operator ++ "\""

/-- **The value of `left operator right`.** `&` joins the texts; the four arithmetic operators read
both sides leniently and write six decimal places. -/
def applyOperator (operator left right : String) : Except OperatorFault String :=
  let x := toNumber left
  let y := toNumber right
  match operator with
  | "&" => .ok (left ++ right)
  | "+" => .ok (Value.formatFloat (x + y))
  | "-" => .ok (Value.formatFloat (x - y))
  | "*" => .ok (Value.formatFloat (x * y))
  | "/" => if y == 0.0 then .error .divisionByZero else .ok (Value.formatFloat (x / y))
  | other => .error (.unknown other)

/-- **Whether `left operator right` holds**; nothing for an unknown operator. -/
def compareTexts (operator left right : String) : Option Bool :=
  let x := toNumber left
  let y := toNumber right
  match operator with
  | "=" | "==" | "&=" => some (smartEquals left right)
  | "!=" | "<>" | "&!" => some (!smartEquals left right)
  | ">" => some (y < x)
  | ">=" => some (y ≤ x)
  | "<" => some (x < y)
  | "<=" => some (x ≤ y)
  | _ => none

end StepScript
