import Mathlib
import StepScript.Proofs.Number.Difference
import StepScript.Value

/-!
# Proofs/Value/SmartEquality — smart equality does not depend on sides

Smart equality coerces: a text is made a number where the other side is one, and the arms of the
case analysis are not written symmetrically. It is symmetric all the same, and of read texts it is
reflexive, because no text reads as a number that is infinite or none.

* `Value.smartEq_comm` — symmetry, for values of every kind.
* `Value.readable_read` — what a text reads as; if that is a number, it is finite
  (`Value.Readable.isFinite`).
* `Value.Readable.truthy_eq_false_iff` — which readings are falsy: nothing, `false` and the zeros.

Transitivity is not to be had: numbers are equal within a tolerance. The library's lemmas on the
bits and the comparison of doubles come with its root only, which is why this module imports the
whole of it.
-/

namespace StepScript

namespace Number

/-- A double as it is stored stands for the number it was made from. -/
theorem Double.toFloat_ofFloat (x : Float) : (Double.ofFloat x).toFloat = x := Float.ofBits_toBits x

/-- The zeros are the double without bits and the one with the sign bit only. -/
theorem beq_zero_iff (x : Float) :
    (x == 0.0) = true ↔ x.toBits = 0 ∨ x.toBits = 0x8000000000000000 := by
  have hzero : (0.0 : Float).toBits = 0 := by decide +kernel
  have hminus : (-0 : Float).toBits = 0x8000000000000000 := by decide +kernel
  rw [← hzero, ← hminus, Float.toBits_inj, Float.toBits_inj, Float.beq_iff_ne_nan_and_eq]
  constructor
  · rintro ⟨-, -, h | ⟨-, h⟩ | ⟨h, -⟩⟩
    · exact .inl h
    · exact absurd h (by decide +kernel)
    · exact .inr h
  · rintro (rfl | rfl)
    · exact ⟨by decide +kernel, by decide +kernel, .inl rfl⟩
    · exact ⟨by decide +kernel, by decide +kernel, .inr (.inr ⟨rfl, by decide +kernel⟩)⟩

/-! ## Sizes of literals -/

/-- A number within range is of 64 bits. -/
theorem natAbs_of_inRange? {n k : Int} (h : inRange? n = some k) : k.natAbs < 2 ^ 64 := by
  obtain ⟨⟨hmin, hmax⟩, hk⟩ := Option.ite_none_right_eq_some.1 h
  obtain rfl := Option.some.inj hk
  rw [minInt] at hmin
  rw [maxInt] at hmax
  omega

/-- So is an integer that was read, in any base. -/
theorem natAbs_of_readInt? {base : Nat} {cs : List Char} {k : Int} (h : readInt? base cs = some k) :
    k.natAbs < 2 ^ 64 := by
  rcases readInt?_cases base cs with ⟨ds, -, heq⟩ | ⟨ds, -, heq⟩ <;>
  · obtain ⟨n, -, hn⟩ := Option.bind_eq_some_iff.1 (heq.symm.trans h)
    exact natAbs_of_inRange? hn

/-- The opposite is of 64 bits, whatever it is the opposite of. -/
theorem natAbs_opposite_lt (n : Int) : (opposite n).natAbs < 2 ^ 64 := by
  have hsize : ((UInt64.size : Nat) : Int) = 2 ^ 64 := rfl
  have hlow := Int.le_bmod (x := -n) (m := UInt64.size) (by decide)
  have hhigh := Int.bmod_lt (x := -n) (m := UInt64.size) (by decide)
  rw [opposite]
  omega

/-- A hexadecimal literal is of 64 bits, with a minus before the mark as without. -/
theorem natAbs_of_readHex? {cs : List Char} {k : Int} (h : readHex? cs = some k) :
    k.natAbs < 2 ^ 64 := by
  revert h
  fun_cases readHex? cs with
  | case1 cs =>
    intro h
    obtain ⟨body, -, hbody⟩ := Option.bind_eq_some_iff.1 h
    obtain ⟨n, -, rfl⟩ := Option.map_eq_some_iff.1 hbody
    exact natAbs_opposite_lt n
  | case2 =>
    intro h
    obtain ⟨body, -, hbody⟩ := Option.bind_eq_some_iff.1 h
    exact natAbs_of_readInt? hbody

end Number

namespace Value

open Number (Double)

/-! ## Numbers that texts stand for are finite -/

theorem isFinite_of_readFinite? {cs : List Char} {x : Float} (h : readFinite? cs = some x) :
    x.isFinite = true := by
  cases cs with
  | nil => cases h
  | cons c cs =>
    obtain ⟨-, h⟩ := Option.ite_none_right_eq_some.1 h
    exact (Option.filter_eq_some_iff.1 h).2

/-- **What a text is coerced to is finite**, whether it reads as an integer, a fraction or a truth
value. -/
theorem isFinite_of_coerce? {s : String} {x : Float} (h : coerce? s = some x) :
    x.isFinite = true := by
  obtain ⟨-, h⟩ := Option.ite_none_left_eq_some.1 h
  obtain h | ⟨-, h⟩ := Option.or_eq_some_iff.1 h
  · exact isFinite_of_readFinite? h
  · obtain ⟨n, hn, rfl⟩ := Option.map_eq_some_iff.1 h
    exact Number.isFinite_ofInt (Number.natAbs_of_readHex? hn)

/-- **The readings of texts**: an integer is of 64 bits, a fraction is finite, and a text is not
empty. -/
inductive Readable : Value → Prop
  | empty : Readable .empty
  | bool (b : Bool) : Readable (.bool b)
  | int {n : Int} (h : n.natAbs < 2 ^ 64) : Readable (.int n)
  | float {x : Float} (h : x.isFinite = true) : Readable (.float (.ofFloat x))
  | text {s : String} (h : s ≠ "") : Readable (.text s)

/-- Every text reads as a value of a kind that texts read as. -/
theorem readable_read (s : String) : (read s).Readable := by
  unfold read
  split_ifs with hempty htrue hfalse
  · exact .empty
  · exact .bool true
  · exact .bool false
  · dsimp only
    cases hint : Number.readInt? 10 s.toList with
    | some n => exact .int (Number.natAbs_of_readInt? hint)
    | none =>
      cases hfloat : readFinite? s.toList with
      | some x => exact .float (isFinite_of_readFinite? hfloat)
      | none =>
        cases hhex : Number.readHex? s.toList with
        | some n => exact .int (Number.natAbs_of_readHex? hhex)
        | none => exact .text hempty

/-- The number of such a value is finite. -/
theorem Readable.isFinite {v : Value} (h : v.Readable) {x : Float} (hx : v.float? = some x) :
    x.isFinite = true := by
  obtain ⟨number, hnumber, rfl⟩ := Option.map_eq_some_iff.1 hx
  cases h with
  | text => cases hnumber
  | empty =>
    cases hnumber
    decide +kernel
  | bool b =>
    cases hnumber
    cases b <;> decide +kernel
  | int h =>
    cases hnumber
    rw [Double.toFloat_ofFloat]
    exact Number.isFinite_ofInt h
  | float h =>
    cases hnumber
    rwa [Double.toFloat_ofFloat]

/-! ## Falsy values -/

/-- **Nothing, `false`, or a zero**, which has a sign if it is a fraction. -/
inductive Falsy : Value → Prop
  | empty : Falsy .empty
  | bool : Falsy (.bool false)
  | int : Falsy (.int 0)
  | float {x : Double} (h : x.bits = 0 ∨ x.bits = 0x8000000000000000) : Falsy (.float x)

/-- Which of these values count as false. -/
theorem Readable.truthy_eq_false_iff {v : Value} (h : v.Readable) : v.truthy = false ↔ v.Falsy := by
  cases h with
  | empty => exact ⟨fun _ => .empty, fun _ => rfl⟩
  | bool b =>
    refine ⟨fun h => ?_, fun h => ?_⟩
    · obtain rfl : b = false := h
      exact .bool
    · cases h
      rfl
  | @int n _ =>
    refine ⟨fun h => ?_, fun h => ?_⟩
    · obtain rfl : n = 0 := bne_eq_false_iff_eq.1 h
      exact .int
    · cases h
      rfl
  | @float x _ =>
    have hzero : (Value.float (.ofFloat x)).truthy = false ↔ (x == 0.0) = true := by
      rw [truthy, Double.toFloat_ofFloat, Bool.not_eq_false']
    rw [hzero, Number.beq_zero_iff]
    refine ⟨fun h => .float h, fun h => ?_⟩
    cases h with
    | float h => exact h
  | @text s hs =>
    refine ⟨fun h => absurd (bne_eq_false_iff_eq.1 h) hs, fun h => ?_⟩
    cases h

/-! ## Symmetry -/

/-- To be close is symmetric, as the size of a difference is. -/
theorem closeTo_comm (x y : Float) : closeTo x y = closeTo y x := by
  rw [closeTo, closeTo, Number.abs_sub_comm]

theorem closeTo?_comm (x y : Option Float) : closeTo? x y = closeTo? y x := by
  cases x with
  | none => cases y <;> rfl
  | some x =>
    cases y with
    | none => rfl
    | some y => exact closeTo_comm x y

/-- Two texts are compared as texts unless both are numbers, which is so from either side. -/
theorem smartEq_text_comm (s t : String) :
    (text s).smartEq (text t) = (text t).smartEq (text s) := by
  cases hs : (text s).truthy <;> cases ht : (text t).truthy <;> simp only [smartEq, hs, ht]
  cases coerce? s with
  | none => cases coerce? t <;> exact Bool.beq_comm
  | some x =>
    cases coerce? t with
    | none => exact Bool.beq_comm
    | some y => exact closeTo_comm x y

/-- A text against a value of another kind is coerced, whichever side it is on. -/
theorem smartEq_comm (v w : Value) : v.smartEq w = w.smartEq v := by
  cases hv : v.truthy <;> cases hw : w.truthy
  case true.true =>
    cases v <;> cases w
    case text.text s t => exact smartEq_text_comm s t
    all_goals simp only [smartEq, hv, hw]
    all_goals exact closeTo?_comm _ _
  all_goals simp only [smartEq, hv, hw]

/-! ## Reflexivity -/

/-- A finite number is close to itself. -/
theorem closeTo_self {x : Float} (h : x.isFinite = true) : closeTo x x = true := by
  rw [closeTo, Number.sub_self_of_isFinite h]
  decide +kernel

/-- **Every value that was read equals itself.** -/
theorem Readable.smartEq_self {v : Value} (h : v.Readable) : v.smartEq v = true := by
  cases hv : v.truthy
  case false => simp only [smartEq, hv]
  case true =>
    cases hx : v.float? with
    | some x =>
      have hclose : closeTo? v.float? v.float? = true := by
        rw [hx]
        exact closeTo_self (h.isFinite hx)
      cases v <;> simp only [smartEq, hv]
      case text => cases hx
      all_goals exact hclose
    | none =>
      cases v
      case text s =>
        simp only [smartEq, hv]
        cases hs : coerce? s with
        | none => exact beq_self_eq_true _
        | some x => exact closeTo_self (isFinite_of_coerce? hs)
      all_goals cases hx

/-! ## Falsy against the rest -/

/-- A false value equals exactly the false ones. -/
theorem smartEq_of_truthy_eq_false {v w : Value} (h : v.truthy = false) :
    v.smartEq w = !w.truthy := by
  cases hw : w.truthy <;> simp only [smartEq, h, hw] <;> rfl

end Value

/-- **Smart equality is an equality up to coercion.** It is symmetric, on values as well as on
texts, and every text equals itself. The falsy texts, which are those that read as nothing, as
`false` or as a zero, are equal to one another and to no other text. -/
theorem smartEquals_coercion (a b : String) :
    smartEquals a b = smartEquals b a ∧ smartEquals a a = true ∧
    (∀ v w : Value, v.smartEq w = w.smartEq v) ∧
    ((Value.read a).truthy = false ↔ (Value.read a).Falsy) ∧
    ((Value.read a).Falsy → (Value.read b).Falsy → smartEquals a b = true) ∧
    ((Value.read a).Falsy → (Value.read b).truthy = true → smartEquals a b = false) := by
  have hfalsy := (Value.readable_read a).truthy_eq_false_iff
  refine ⟨Value.smartEq_comm _ _, (Value.readable_read a).smartEq_self, Value.smartEq_comm, hfalsy,
    fun ha hb => ?_, fun ha hb => ?_⟩
  · rw [smartEquals, Value.smartEq_of_truthy_eq_false (hfalsy.2 ha),
      (Value.readable_read b).truthy_eq_false_iff.2 hb]
    rfl
  · rw [smartEquals, Value.smartEq_of_truthy_eq_false (hfalsy.2 ha), hb]
    rfl

/-- A minus zero equals `FALSE`, and it does not equal a one in hexadecimal between spaces. That one
is a text, and is made a number beside `TRUE`: the two are equal, whichever comes first. -/
theorem minusZero_coerced :
    ((Value.read "-0e9").Falsy ∧ (Value.read "FALSE").Falsy ∧ smartEquals "-0e9" "FALSE" = true) ∧
    ((Value.read " 0x1 ").truthy = true ∧ smartEquals "-0e9" " 0x1 " = false) ∧
    (Value.read " 0x1 " = .text " 0x1 " ∧ Value.read "TRUE" = .bool true ∧
      smartEquals " 0x1 " "TRUE" = true ∧ smartEquals "TRUE" " 0x1 " = true) := by
  have hminus : (Value.read "-0e9").Falsy := by
    have hread : Value.read "-0e9" = .float ⟨0x8000000000000000⟩ := by decide +kernel
    rw [hread]
    exact .float (.inr rfl)
  have hfalse : (Value.read "FALSE").Falsy := by
    have hread : Value.read "FALSE" = .bool false := by decide +kernel
    rw [hread]
    exact .bool
  have hone : (Value.read " 0x1 ").truthy = true := by decide +kernel
  obtain ⟨-, -, -, -, hequal, -⟩ := smartEquals_coercion "-0e9" "FALSE"
  obtain ⟨-, -, -, -, -, hapart⟩ := smartEquals_coercion "-0e9" " 0x1 "
  obtain ⟨hturned, -⟩ := smartEquals_coercion "TRUE" " 0x1 "
  have hcoerced : smartEquals " 0x1 " "TRUE" = true := by decide +kernel
  exact ⟨⟨hminus, hfalse, hequal hminus hfalse⟩, ⟨hone, hapart hminus hone⟩, by decide +kernel,
    by decide +kernel, hcoerced, hturned.trans hcoerced⟩

end StepScript
