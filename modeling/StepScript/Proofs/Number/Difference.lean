import Mathlib.Tactic.NormNum
import Mathlib.Tactic.Positivity
import StepScript.Number.Literal

/-!
# Proofs/Number/Difference — the difference of two doubles

Two numbers are equal if their difference is small. What such an equality needs of the arithmetic is
proved here on the unpacked form of doubles, where rounding and packing are seen to leave the sign
alone.

* `abs_sub_comm` — the size of a difference does not depend on the order of the two.
* `sub_self_of_isFinite` — a finite double less itself is zero.
* `isFinite_ofInt` — the double nearest to an integer of 64 bits is finite.

The last is not plain from the code. The double of an integer is a scaled product, so what is
carried through rounding, multiplication and packing is `Modest`: a bound on the mantissa and on the
exponent.
-/

theorem Nat.log2_le_of_lt {m a : Nat} (h : m < 2 ^ a) : m.log2 ≤ a := by
  rcases Nat.eq_zero_or_pos m with rfl | hm
  · exact Nat.zero_le a
  · exact ((Nat.log2_lt hm.ne').2 h).le

namespace StepScript.Number

open Float.Model (Format UnpackedFloat totalExponent)
open Float.Model.UnpackedFloat (Sign Accuracy ExtendedMantissa packComponents roundWithAccuracy
  unpackExponent_packComponents unpackMantissa_packComponents)

variable {spec : Format}

/-! ## Packing -/

/-- The size of the number that has the given bits for its exponent and its mantissa. -/
def magnitude (spec : Format) (exponent : BitVec spec.exponentBits)
    (mantissa : BitVec spec.mantissaBitsWithoutImplicit) : UnpackedFloat :=
  let power : Int := exponent.toNat - (spec.exponentBias + spec.mantissaBitsWithoutImplicit)
  if exponent = -1#_ then
    if mantissa = 0#_ then .infinity .positive else .notANumber
  else if exponent = 0#_ then
    if h : mantissa = 0#_ then .zero .positive
    else .finite .positive mantissa.toNat (power + 1) (BitVec.toNat_pos_of_ne_zero h)
  else .finite .positive (1#1 ++ mantissa).toNat power (by
    rw [BitVec.toNat_append]
    exact Nat.pos_of_ne_zero (by simp))

/-- **Unpacking reads the size off the exponent and the mantissa.** -/
theorem abs_unpack (b : BitVec spec.numBits) : (UnpackedFloat.unpack spec b).abs =
    magnitude spec (UnpackedFloat.unpackExponent b) (UnpackedFloat.unpackMantissa b) := by
  delta UnpackedFloat.unpack magnitude
  dsimp only
  by_cases hlast : UnpackedFloat.unpackExponent b = -1#_
  · rw [if_pos hlast, if_pos hlast]
    by_cases hzero : UnpackedFloat.unpackMantissa b = 0#_
    · rw [if_pos hzero, if_pos hzero]
      rfl
    · rw [if_neg hzero, if_neg hzero]
      rfl
  · rw [if_neg hlast, if_neg hlast]
    by_cases hfirst : UnpackedFloat.unpackExponent b = 0#_
    · rw [if_pos hfirst, if_pos hfirst]
      by_cases hzero : UnpackedFloat.unpackMantissa b = 0#_
      · rw [dif_pos hzero, dif_pos hzero]
        rfl
      · rw [dif_neg hzero, dif_neg hzero]
        rfl
    · rw [if_neg hfirst, if_neg hfirst]
      rfl

/-- The exponent as it is packed. -/
def biasedExponent (spec : Format) (e : Int) : Nat :=
  (e + spec.exponentBias + spec.mantissaBitsWithoutImplicit).toNat

/-- A number that is neither zero nor infinite is packed by its exponent, which may be too large,
and by the bits of its mantissa. -/
theorem pack_finite (spec : Format) (s : Sign) (m : Nat) (e : Int) (hm : 0 < m) :
    (UnpackedFloat.finite s m e hm).pack spec =
      if 2 ^ spec.exponentBits ≤ biasedExponent spec e + 1 then UnpackedFloat.packedInfinity spec s
      else if m.log2 + 1 = spec.mantissaBits then
        packComponents spec s (BitVec.ofNat _ (biasedExponent spec e)) (BitVec.ofNat _ m)
      else packComponents spec s 0#_ (BitVec.ofNat _ m) := rfl

/-! ## Signs -/

/-- The size of a packed number does not depend on its sign. -/
theorem abs_unpack_packComponents (s s' : Sign) (exponent : BitVec spec.exponentBits)
    (mantissa : BitVec spec.mantissaBitsWithoutImplicit) :
    (UnpackedFloat.unpack spec (packComponents spec s exponent mantissa)).abs =
      (UnpackedFloat.unpack spec (packComponents spec s' exponent mantissa)).abs := by
  rw [abs_unpack, abs_unpack, unpackExponent_packComponents, unpackMantissa_packComponents,
    unpackExponent_packComponents, unpackMantissa_packComponents]

/-- How a number is packed depends on its sign in the sign only. -/
theorem exists_packComponents (spec : Format) (m : Nat) (e : Int) (hm : 0 < m) :
    ∃ exponent mantissa, ∀ s : Sign,
      (UnpackedFloat.finite s m e hm).pack spec = packComponents spec s exponent mantissa := by
  by_cases hover : 2 ^ spec.exponentBits ≤ biasedExponent spec e + 1
  · exact ⟨_, _, fun s => (pack_finite spec s m e hm).trans (if_pos hover)⟩
  · by_cases hfull : m.log2 + 1 = spec.mantissaBits
    · exact ⟨_, _, fun s => (pack_finite spec s m e hm).trans ((if_neg hover).trans (if_pos hfull))⟩
    · exact ⟨_, _, fun s => (pack_finite spec s m e hm).trans ((if_neg hover).trans (if_neg hfull))⟩

/-- The size of a number after packing does not depend on its sign. -/
theorem abs_unpack_pack (u : UnpackedFloat) :
    (UnpackedFloat.unpack spec (u.pack spec)).abs =
      (UnpackedFloat.unpack spec (u.abs.pack spec)).abs := by
  cases u with
  | notANumber => rfl
  | infinity s => exact abs_unpack_packComponents ..
  | zero s => exact abs_unpack_packComponents ..
  | finite s m e hm =>
    obtain ⟨exponent, mantissa, hpack⟩ := exists_packComponents spec m e hm
    rw [hpack, show (UnpackedFloat.finite s m e hm).abs = .finite .positive m e hm from rfl, hpack]
    exact abs_unpack_packComponents ..

/-- The mantissa and the exponent that rounding arrives at: the mantissa may need a second shift
when it was rounded up to one bit more. -/
def rounded (spec : Format) (m : Nat) (e : Int) (a : Accuracy) : ExtendedMantissa × Int :=
  let first := UnpackedFloat.shiftToTargetExponent spec m e a
  UnpackedFloat.shiftToTargetExponent spec first.1.roundedMantissa first.2 .exact

/-- A rounded number is zero, or has the mantissa and the exponent that rounding arrives at. -/
theorem roundWithAccuracy_eq (s : Sign) (m : Nat) (e : Int) (a : Accuracy) :
    roundWithAccuracy spec s m e a =
      if h : (rounded spec m e a).1.mantissa = 0 then .zero s
      else .finite s _ (rounded spec m e a).2 (Nat.pos_of_ne_zero h) := rfl

/-- Rounding does not look at the sign. -/
theorem abs_roundWithAccuracy (s s' : Sign) (m : Nat) (e : Int) (a : Accuracy) :
    (roundWithAccuracy spec s m e a).abs = (roundWithAccuracy spec s' m e a).abs := by
  rw [roundWithAccuracy_eq, roundWithAccuracy_eq]
  by_cases h : (rounded spec m e a).1.mantissa = 0
  · rw [dif_pos h, dif_pos h]
    rfl
  · rw [dif_neg h, dif_neg h]
    rfl

/-- A whole number and its opposite are rounded to the same size. -/
theorem abs_normalize_neg (m e : Int) (s : Sign) :
    (UnpackedFloat.normalize spec (-m) e s).abs = (UnpackedFloat.normalize spec m e s).abs := by
  rcases lt_trichotomy m 0 with hm | rfl | hm
  · rw [UnpackedFloat.normalize, UnpackedFloat.normalize, Int.compare_eq_lt.2 hm,
      Int.compare_eq_gt.2 (by omega)]
    exact abs_roundWithAccuracy ..
  · rfl
  · rw [UnpackedFloat.normalize, UnpackedFloat.normalize, Int.compare_eq_gt.2 hm,
      Int.compare_eq_lt.2 (by omega), neg_neg]
    exact abs_roundWithAccuracy ..

/-- Two finite numbers are brought to the smaller of their exponents and subtracted there. -/
theorem sub_finite (spec : Format) (s s' : Sign) {m m' : Nat} (e e' : Int) (hm : 0 < m)
    (hm' : 0 < m') :
    UnpackedFloat.sub spec (.finite s m e hm) (.finite s' m' e' hm') =
      UnpackedFloat.normalize spec
        (s.apply (UnpackedFloat.decreaseExponent m e (min e e')).1 -
          s'.apply (UnpackedFloat.decreaseExponent m' e' (min e e')).1)
        (min e e') .positive := rfl

/-- **A difference and the one the other way round** are of the same size. -/
theorem abs_sub_unpacked (u v : UnpackedFloat) :
    (UnpackedFloat.sub spec u v).abs = (UnpackedFloat.sub spec v u).abs := by
  cases u with
  | notANumber => cases v <;> rfl
  | infinity s =>
    cases v with
    | infinity s' => cases s <;> cases s' <;> rfl
    | _ => rfl
  | zero s =>
    cases v with
    | zero s' => cases s <;> cases s' <;> rfl
    | _ => rfl
  | finite s m e hm =>
    cases v with
    | finite s' m' e' hm' =>
      rw [sub_finite, sub_finite, ← abs_normalize_neg, neg_sub, min_comm]
    | _ => rfl

/-- **A finite number less itself** is zero. -/
theorem sub_self_unpacked {u : UnpackedFloat} (h : u.isFinite = true) :
    UnpackedFloat.sub spec u u = .zero .positive := by
  cases u with
  | notANumber => cases h
  | infinity s => cases h
  | zero s => cases s <;> rfl
  | finite s m e hm =>
    rw [sub_finite, sub_self]
    rfl

/-- The difference of two doubles, in the model. -/
def difference (x y : Float) : UnpackedFloat :=
  UnpackedFloat.sub .binary64 x.toModel.unpack y.toModel.unpack

/-- The size of a difference, in the model. -/
theorem abs_sub_eq (x y : Float) :
    (x - y).abs =
      .ofModel (.pack (UnpackedFloat.unpack .binary64 ((difference x y).pack .binary64)).abs) := rfl

/-- **The size of a difference does not depend on the order of the two.** -/
theorem abs_sub_comm (x y : Float) : (x - y).abs = (y - x).abs := by
  rw [abs_sub_eq, abs_sub_eq, abs_unpack_pack, difference, abs_sub_unpacked,
    ← abs_unpack_pack, ← difference]

/-- **A finite double less itself is zero.** Of an infinite one this is not so. -/
theorem sub_self_of_isFinite {x : Float} (h : x.isFinite = true) : x - x = 0 := by
  have hzero : (Float.ofModel (.pack (.zero .positive)) : Float) = 0 := by decide +kernel
  rw [← hzero]
  exact congrArg (fun u => Float.ofModel (.pack u)) (sub_self_unpacked h)

/-! ## Sizes -/

/-- **The number is modest**: zero, or a whole number of so many bits times a power of two up to a
bound. -/
inductive Modest (bits : Nat) (power : Int) : UnpackedFloat → Prop
  | zero (s : Sign) : Modest bits power (.zero s)
  | finite {m : Nat} {e : Int} (s : Sign) (hm : 0 < m) (hbits : m < 2 ^ bits) (hpower : e ≤ power) :
    Modest bits power (.finite s m e hm)

namespace Modest

variable {a b : Nat} {p q : Int} {u v : UnpackedFloat}

/-- What is modest is neither infinite nor undefined. -/
theorem isFinite (h : Modest a p u) : u.isFinite = true := by
  cases h <;> rfl

theorem mono (h : Modest a p u) (hbits : a ≤ b) (hpower : p ≤ q) : Modest b q u := by
  cases h with
  | zero s => exact .zero s
  | finite s hm hlt hle =>
    exact .finite s hm (hlt.trans_le (Nat.pow_le_pow_right two_pos hbits)) (hle.trans hpower)

theorem neg (h : Modest a p u) : Modest a p u.neg := by
  cases h with
  | zero s => exact .zero _
  | finite s hm hlt hle => exact .finite _ hm hlt hle

/-- The sign does not matter. -/
theorem of_abs (h : Modest a p u.abs) : Modest a p u := by
  cases u with
  | notANumber => cases h
  | infinity s => cases h
  | zero s => exact .zero s
  | finite s m e hm =>
    cases h with
    | finite _ _ hlt hle => exact .finite s hm hlt hle

end Modest

/-! ### Rounding -/

/-- Shifting to the right makes no mantissa larger. -/
theorem mantissa_shiftRight_le (em : ExtendedMantissa) (n : Nat) :
    (em >>> n).mantissa ≤ em.mantissa := by
  induction n with
  | zero => exact le_rfl
  | succ n ih => exact (Nat.div_le_self _ 2).trans ih

/-- Rounding adds at most one. -/
theorem roundedMantissa_le (em : ExtendedMantissa) : em.roundedMantissa ≤ em.mantissa + 1 := by
  obtain ⟨m, round, sticky⟩ := em
  cases round <;> cases sticky <;>
    simp only [ExtendedMantissa.roundedMantissa, ExtendedMantissa.accuracy,
      Accuracy.roundToNearestEven] <;> omega

theorem mantissa_ofMantissaAndAccuracy (m : Nat) (a : Accuracy) :
    (ExtendedMantissa.ofMantissaAndAccuracy m a).mantissa = m := by
  cases a with
  | exact => rfl
  | inexact o => cases o <;> rfl

/-- A double has 53 bits, and no exponent below that of the smallest number. -/
theorem targetExponent_binary64 (t : Int) :
    Format.binary64.targetExponent t = max (t - 53) (-1074) := rfl

/-- Shifting to the exponent that the format wants makes the mantissa no larger, and the exponent
not much. -/
theorem shiftToTargetExponent_bounds {m a : Nat} {e p : Int} (acc : Accuracy) (hm : m < 2 ^ a)
    (he : e ≤ p) (hp : 0 ≤ p) :
    (UnpackedFloat.shiftToTargetExponent .binary64 m e acc).1.mantissa ≤ m ∧
      (UnpackedFloat.shiftToTargetExponent .binary64 m e acc).2 ≤ p + a := by
  have hlog := Nat.log2_le_of_lt hm
  simp only [UnpackedFloat.shiftToTargetExponent, UnpackedFloat.shiftToExponent,
    targetExponent_binary64, totalExponent]
  constructor
  · exact (mantissa_shiftRight_le _ _).trans (mantissa_ofMantissaAndAccuracy m acc).le
  · omega

/-- **Rounding keeps numbers modest.** -/
theorem modest_roundWithAccuracy {m a : Nat} {e p : Int} (s : Sign) (acc : Accuracy)
    (hm : m < 2 ^ a) (he : e ≤ p) (hp : 0 ≤ p) :
    Modest (a + 1) (p + 2 * a + 1) (roundWithAccuracy .binary64 s m e acc) := by
  obtain ⟨hfirst, hexponent⟩ := shiftToTargetExponent_bounds acc hm he hp
  have hrounded := roundedMantissa_le (UnpackedFloat.shiftToTargetExponent .binary64 m e acc).1
  have hlt : (UnpackedFloat.shiftToTargetExponent .binary64 m e acc).1.roundedMantissa <
      2 ^ (a + 1) := by
    rw [pow_succ]
    omega
  obtain ⟨hsecond, hfinal⟩ := shiftToTargetExponent_bounds .exact hlt hexponent (by omega)
  rw [roundWithAccuracy_eq]
  by_cases hzero : (rounded .binary64 m e acc).1.mantissa = 0
  · rw [dif_pos hzero]
    exact .zero s
  · rw [dif_neg hzero]
    exact .finite s _ (hsecond.trans_lt hlt) (hfinal.trans (by push_cast; omega))

/-- A whole number is rounded to a modest one. -/
theorem modest_round {m a : Nat} (s : Sign) (hm : m < 2 ^ a) :
    Modest (a + 53) (2 * a + 105) (UnpackedFloat.round .binary64 s m 0) := by
  have hshift : (0 - Format.binary64.targetExponent (totalExponent m 0)).toNat ≤ 52 := by
    rw [targetExponent_binary64, totalExponent]
    omega
  have hlt : m <<< (0 - Format.binary64.targetExponent (totalExponent m 0)).toNat <
      2 ^ (a + 52) := by
    rw [Nat.shiftLeft_eq, pow_add]
    exact Nat.mul_lt_mul_of_lt_of_le hm (Nat.pow_le_pow_right two_pos hshift) (by positivity)
  exact (modest_roundWithAccuracy s .exact hlt (show _ ≤ (0 : Int) by omega) le_rfl).mono (by omega)
    (by push_cast; omega)

/-- A whole number with a sign is rounded to a modest one. -/
theorem modest_normalize {n : Int} {a : Nat} (s : Sign) (hn : n.natAbs < 2 ^ a) :
    Modest (a + 53) (2 * a + 105) (UnpackedFloat.normalize .binary64 n 0 s) := by
  unfold UnpackedFloat.normalize
  split
  · exact modest_round _ (by omega)
  · exact .zero s
  · exact modest_round _ (by omega)

/-- **Products of modest numbers are modest**: the bits add up and so do the powers. -/
theorem modest_mul {a b : Nat} {p q : Int} {u v : UnpackedFloat} (hu : Modest a p u)
    (hv : Modest b q v) (hp : 0 ≤ p) (hq : 0 ≤ q) :
    Modest (a + b + 1) (p + q + 2 * (a + b) + 1) (UnpackedFloat.mul .binary64 u v) := by
  cases hu with
  | zero s => cases hv <;> exact .zero _
  | @finite m e s hm hlt hle =>
    cases hv with
    | zero s' => exact .zero _
    | @finite m' e' s' hm' hlt' hle' =>
      have hproduct : m * m' < 2 ^ (a + b) := by
        rw [pow_add]
        exact Nat.mul_lt_mul'' hlt hlt'
      rw [← Nat.cast_add]
      exact modest_roundWithAccuracy (s * s') .exact hproduct (add_le_add hle hle')
        (add_nonneg hp hq)

/-! ### Packing -/

/-- A packed number is modest unless its exponent is the largest. -/
theorem modest_unpack_packComponents {p : Int} (s : Sign) {exponent : BitVec 11}
    (mantissa : BitVec 52) (hfinite : exponent.toNat ≠ 2047)
    (hexponent : (exponent.toNat : Int) - 1075 ≤ p) (hp : 0 ≤ p) :
    Modest 53 p (UnpackedFloat.unpack .binary64
      (packComponents .binary64 s exponent mantissa)) := by
  have hne : exponent ≠ -1#_ := by
    rintro rfl
    exact hfinite rfl
  have hmantissa := mantissa.isLt
  refine .of_abs ?_
  rw [abs_unpack, unpackExponent_packComponents, unpackMantissa_packComponents, magnitude,
    if_neg hne]
  by_cases hzero : exponent = 0#_
  · rw [if_pos hzero]
    by_cases hnone : mantissa = 0#_
    · rw [dif_pos hnone]
      exact .zero _
    · rw [dif_neg hnone]
      refine .finite _ _ (by omega) ?_
      rw [hzero]
      exact (show (-1074 : Int) ≤ p by omega)
  · rw [if_neg hzero]
    exact .finite _ _ (1#1 ++ mantissa).isLt hexponent

/-- **Modest numbers do not overflow** when they are packed. -/
theorem modest_unpack_pack {a : Nat} {p : Int} {u : UnpackedFloat} (h : Modest a p u) (hp : 0 ≤ p)
    (hlarge : p ≤ 971) :
    Modest 53 p (UnpackedFloat.unpack .binary64 (u.pack .binary64)) := by
  cases h with
  | zero s =>
    exact modest_unpack_packComponents s 0 (by decide) (show (-1075 : Int) ≤ p by omega) hp
  | @finite m e s hm _ he =>
    have hbiased : biasedExponent .binary64 e = (e + 1075).toNat :=
      congrArg Int.toNat (add_assoc e 1023 52)
    rw [pack_finite, hbiased]
    split_ifs with hover hnormal
    · exact absurd hover (by norm_num; omega)
    · refine modest_unpack_packComponents s _ ?_ ?_ hp
      all_goals
        rw [BitVec.toNat_ofNat]
        omega
    · exact modest_unpack_packComponents s _ (by decide) (show (-1075 : Int) ≤ p by omega) hp

/-! ### Whole numbers -/

/-- A number below `2 ^ 53` is modest as a double. -/
theorem modest_toFloat {n : Nat} (h : n < 2 ^ 53) :
    Modest 53 211 n.toUInt64.toFloat.toModel.unpack := by
  have hword : (n.toUInt64.toNat : Int).natAbs < 2 ^ 53 := (Nat.mod_le n _).trans_lt h
  exact modest_unpack_pack (modest_normalize .positive hword) (by decide) (by decide)

/-- Without a power of ten, the decimal number is the whole number with 53 bits behind it, times
one. -/
theorem ofScientific_zero {n : Nat} (hn : n ≠ 0) (hpos : 0 < n <<< 53) :
    UnpackedFloat.ofScientific .binary64 n 0 =
      UnpackedFloat.mul .binary64 (.finite .positive (n <<< 53) (-53) hpos)
        (.finite .positive 1 0 one_pos) := by
  have hhigh : ¬ (0 : Int) > 2 ^ Format.binary64.exponentBits := by decide
  have hlow : ¬ (0 : Int) < -(2 ^ Format.binary64.exponentBits + n.log2) := by
    rw [not_lt, neg_nonpos]
    exact add_nonneg (by decide) (Int.natCast_nonneg _)
  exact (dif_neg hn).trans ((if_neg hhigh).trans ((if_neg hlow).trans (if_pos le_rfl)))

theorem modest_ofScientific {n : Nat} (h : n < 2 ^ 64) (hn : n ≠ 0) :
    Modest 119 237 (UnpackedFloat.ofScientific .binary64 n 0) := by
  have hpos : 0 < n <<< 53 := by
    rw [Nat.shiftLeft_eq]
    positivity
  have hshift : n <<< 53 < 2 ^ 117 := by
    rw [Nat.shiftLeft_eq, show 117 = 64 + 53 from rfl, pow_add]
    exact Nat.mul_lt_mul_of_pos_right h (by positivity)
  have hmodest : Modest 117 0 (.finite .positive (n <<< 53) (-53) hpos) :=
    .finite _ hpos hshift (by decide)
  have hone : Modest 1 0 (.finite .positive 1 0 one_pos) := .finite _ _ (by decide) le_rfl
  rw [ofScientific_zero hn hpos]
  exact (modest_mul hmodest hone le_rfl le_rfl).mono (by decide) (by decide)

/-- **Whole numbers of machine size are modest**, on either way to read them. -/
theorem modest_ofNat {n : Nat} (h : n < 2 ^ 64) : Modest 53 424 (Float.ofNat n).toModel.unpack := by
  by_cases hsmall : n < 2 ^ 53
  · -- A small number is multiplied by one.
    have hone : Modest 53 0 (Float.ofBits 0x3FF0000000000000).toModel.unpack :=
      .finite _ _ (by decide) (by decide)
    have hfast : Float.ofNat n = n.toUInt64.toFloat * Float.ofBits 0x3FF0000000000000 :=
      (dif_pos ⟨hsmall, Nat.zero_le 22⟩).trans rfl
    rw [hfast]
    exact modest_unpack_pack (modest_mul (modest_toFloat hsmall) hone (by decide) (by decide))
      (by decide) (by decide)
  · have hn : n ≠ 0 := by
      rintro rfl
      exact hsmall (by decide)
    have hslow : Float.ofNat n = .ofModel (.pack (UnpackedFloat.ofScientific .binary64 n 0)) :=
      (dif_neg fun hboth => hsmall hboth.1).trans rfl
    rw [hslow]
    exact (modest_unpack_pack (modest_ofScientific h hn) (by decide) (by decide)).mono
      le_rfl (by decide)

/-- **Whole numbers of machine size are finite.** -/
theorem isFinite_ofInt {n : Int} (h : n.natAbs < 2 ^ 64) : (Float.ofInt n).isFinite = true := by
  cases n with
  | ofNat n => exact (modest_ofNat h).isFinite
  | negSucc n => exact (modest_unpack_pack (modest_ofNat h).neg (by decide) (by decide)).isFinite

end StepScript.Number
