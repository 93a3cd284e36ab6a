import StepScript.Number.Literal
import StepScript.Text.Space

/-!
# Entity — the things scripts run on

The host owns the entities; scripts know them by a 64-bit number only.
-/

namespace StepScript

/-- The number of an entity. -/
structure EntityId where
  id : UInt64
deriving DecidableEq, Inhabited

namespace EntityId

/-- The text of an entity: hexadecimal, at least eight digits after the mark. -/
def text (e : EntityId) : String :=
  let digits := Nat.toDigits 16 e.id.toNat
  "0x" ++ String.ofList (List.replicate (8 - digits.length) '0' ++ digits)

instance : ToString EntityId := ⟨text⟩

/-- **The entity a text names**: a positive number, decimal or after `0x`; white space at the ends
is ignored. -/
def read? (s : String) : Option EntityId :=
  let cs := Text.trimChars s.toList
  let number := match Number.hexBody? cs with
    | some body => Number.readUnsigned? 16 body
    | none => Number.readUnsigned? 10 cs
  (number.filter (· ≠ 0)).map EntityId.mk

end EntityId

end StepScript
