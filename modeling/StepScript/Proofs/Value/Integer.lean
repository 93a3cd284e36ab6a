import Mathlib.Data.List.TakeDrop
import StepScript.Value

/-!
# Proofs/Value/Integer — integers read from their renderings

An integer may be written in decimal or in hexadecimal, with zeros in front of its digits. In
decimal the sign takes part in the range check, so every 64-bit integer is read. In hexadecimal the
size is checked before the minus is applied: the least integer, whose size is one more than the
greatest integer, reads as text.

* `Number.IsDecimal`, `Number.IsHex` — the renderings of an integer.
* `Number.readDigits?_digitsOf` — digits read back as the number that they are the digits of.
* `Value.read_rendering` — what the renderings of an integer read as.
-/

/-- The lower case of a character is 32 after it, from `A` to `Z`. -/
theorem Char.toNat_toLower (c : Char) :
    c.toLower.toNat = if 65 ≤ c.toNat ∧ c.toNat ≤ 90 then c.toNat + 32 else c.toNat := by
  have hupper : (c.val ≥ 'A'.val ∧ c.val ≤ 'Z'.val) ↔ 65 ≤ c.toNat ∧ c.toNat ≤ 90 := Iff.rfl
  by_cases h : c.val ≥ 'A'.val ∧ c.val ≤ 'Z'.val
  · have hlower : c.toLower.toNat = (c.val.toNat + 32) % 4294967296 :=
      congrArg Char.toNat (dif_pos h)
    have hle : c.val.toNat ≤ 90 := (hupper.1 h).2
    rw [if_pos (hupper.1 h), hlower]
    exact Nat.mod_eq_of_lt (by omega)
  · have hsame : c.toLower = c := dif_neg h
    rw [hsame, if_neg (mt hupper.2 h)]

namespace StepScript

namespace Number

/-! ## Renderings -/

/-- The digits of a number in a base, letters in lower case, with zeros in front. -/
def digitsOf (base zeros n : Nat) : List Char := List.replicate zeros '0' ++ Nat.toDigits base n

/-- **A decimal rendering of an integer**: a minus if it is negative, zeros, and the digits. A plus
may stand before an integer that is not negative. -/
inductive IsDecimal : Int → List Char → Prop where
  | bare (n zeros : Nat) : IsDecimal n (digitsOf 10 zeros n)
  | plus (n zeros : Nat) : IsDecimal n ('+' :: digitsOf 10 zeros n)
  | minus {n : Nat} (hn : 0 < n) (zeros : Nat) : IsDecimal (-n) ('-' :: digitsOf 10 zeros n)

/-- **A hexadecimal rendering of an integer**: a minus if it is negative, the mark `0x`, zeros, and
the digits. Letters may have either case. -/
inductive IsHex : Int → List Char → Prop where
  | bare {n zeros : Nat} {mark : Char} {cs : List Char} (hmark : mark = 'x' ∨ mark = 'X')
    (hcs : cs.map Char.toLower = digitsOf 16 zeros n) : IsHex n ('0' :: mark :: cs)
  | minus {n zeros : Nat} {mark : Char} {cs : List Char} (hn : 0 < n)
    (hmark : mark = 'x' ∨ mark = 'X') (hcs : cs.map Char.toLower = digitsOf 16 zeros n) :
    IsHex (-n) ('-' :: '0' :: mark :: cs)

/-! ## Digits -/

/-- The case of a digit does not count. -/
theorem digit?_toLower (base : Nat) (c : Char) : digit? base c.toLower = digit? base c := by
  simp only [digit?, Char.toNat_toLower, Char.reduceToNat]
  grind

/-- The character of a digit is read as that digit, in any base up to sixteen. -/
theorem digit?_digitChar {base d : Nat} (hd : d < base) (hbase : base ≤ 16) :
    digit? base d.digitChar = some d := by
  have hvalue : ∀ d < 16, ∀ base ≤ 16, d < base → digit? base d.digitChar = some d := by decide
  exact hvalue d (Nat.lt_of_lt_of_le hd hbase) base hbase hd

/-- Digits are read one part after the other. -/
theorem digitsAfter?_append (base : Nat) (low : List Nat) (cs ds : List Char) :
    digitsAfter? base low (cs ++ ds) =
      (digitsAfter? base low cs).bind fun low => digitsAfter? base low ds := by
  induction cs generalizing low with
  | nil => rfl
  | cons c cs ih => simp only [List.cons_append, digitsAfter?, ih, Option.bind_assoc]

theorem digitsAfter?_toLower (base : Nat) (low : List Nat) (cs : List Char) :
    digitsAfter? base low (cs.map Char.toLower) = digitsAfter? base low cs := by
  induction cs generalizing low with
  | nil => rfl
  | cons c cs ih => simp only [List.map_cons, digitsAfter?, digit?_toLower, ih]

/-- Zeros in front do not count. -/
theorem digitsAfter?_zeros {base : Nat} (hpos : 0 < base) (zeros : Nat) {low : List Nat}
    (hlow : ofDigits base low = 0) :
    ∃ ds, digitsAfter? base low (List.replicate zeros '0') = some ds ∧ ofDigits base ds = 0 := by
  induction zeros generalizing low with
  | zero => exact ⟨low, rfl, hlow⟩
  | succ zeros ih =>
    have hzero : digit? base '0' = some 0 := if_pos hpos
    simp only [List.replicate_succ, digitsAfter?, hzero, Option.bind_some]
    exact ih (by simp [hlow])

/-- The digits of a number have its value. -/
theorem digitsAfter?_toDigits {base : Nat} (hlt : 1 < base) (hbase : base ≤ 16) (n : Nat)
    {low : List Nat} (hlow : ofDigits base low = 0) :
    ∃ ds, digitsAfter? base low (Nat.toDigits base n) = some ds ∧ ofDigits base ds = n := by
  induction n using Nat.strongRecOn with
  | ind n ih =>
    rcases Nat.lt_or_ge n base with hn | hn
    · refine ⟨n :: low, ?_, by simp [hlow]⟩
      rw [Nat.toDigits_of_lt_base hn, digitsAfter?, digit?_digitChar hn hbase]
      rfl
    · obtain ⟨ds, hds, hvalue⟩ := ih (n / base) (Nat.div_lt_self (by omega) hlt)
      refine ⟨n % base :: ds, ?_, ?_⟩
      · rw [Nat.toDigits_of_base_le hlt hn, digitsAfter?_append, hds, Option.bind_some,
          digitsAfter?, digit?_digitChar (Nat.mod_lt n (by omega)) hbase]
        rfl
      · rw [ofDigits_cons, hvalue, Nat.mod_add_div]

theorem readDigits?_of_ne_nil {base : Nat} {cs : List Char} (h : cs ≠ []) :
    readDigits? base cs = (digitsAfter? base [] cs).map (ofDigits base) := by
  cases cs with
  | nil => exact absurd rfl h
  | cons c cs => rfl

/-- Digits may be in upper or lower case. -/
theorem readDigits?_toLower (base : Nat) (cs : List Char) :
    readDigits? base (cs.map Char.toLower) = readDigits? base cs := by
  cases cs with
  | nil => rfl
  | cons c cs =>
    rw [readDigits?_of_ne_nil (List.cons_ne_nil c cs), ← digitsAfter?_toLower]
    rfl

/-- **Digits read back**, however many zeros are in front of them. -/
theorem readDigits?_digitsOf {base : Nat} (hlt : 1 < base) (hbase : base ≤ 16) (zeros n : Nat) :
    readDigits? base (digitsOf base zeros n) = some n := by
  have hne : digitsOf base zeros n ≠ [] := List.append_ne_nil_of_right_ne_nil _ Nat.toDigits_ne_nil
  obtain ⟨low, hlow, hzero⟩ := digitsAfter?_zeros (Nat.zero_lt_of_lt hlt) zeros (ofDigits_nil base)
  obtain ⟨ds, hds, hvalue⟩ := digitsAfter?_toDigits hlt hbase n hzero
  rw [readDigits?_of_ne_nil hne, digitsOf, digitsAfter?_append, hlow, Option.bind_some, hds,
    Option.map_some, hvalue]

/-! ## Literals -/

/-- A sign is no digit. -/
theorem readDigits?_sign {base : Nat} {sign : Char} (hsign : sign = '-' ∨ sign = '+')
    (cs : List Char) :
    readDigits? base (sign :: cs) = none := by
  have hnone : digit? base sign = none := by
    rcases hsign with rfl | rfl <;> exact if_neg (Nat.lt_irrefl base)
  rw [readDigits?_of_ne_nil (List.cons_ne_nil _ _), digitsAfter?, hnone]
  rfl

/-- Digits without a sign are an integer. -/
theorem readInt?_of_readDigits? {base n : Nat} {cs : List Char} (h : readDigits? base cs = some n) :
    readInt? base cs = inRange? n := by
  rcases readInt?_cases base cs with ⟨ds, rfl, -⟩ | ⟨ds, rfl | rfl, heq⟩
  · rw [readDigits?_sign (.inl rfl)] at h
    cases h
  · rw [readDigits?_sign (.inr rfl)] at h
    cases h
  · rw [heq, h, Option.bind_some]

/-- An integer starts with a sign or a digit. -/
theorem head_of_readInt? {base : Nat} {cs : List Char} {n : Int} (h : readInt? base cs = some n) :
    ∃ c, cs.head? = some c ∧ (c = '-' ∨ c = '+' ∨ (digit? base c).isSome = true) := by
  rcases readInt?_cases base cs with ⟨ds, rfl, -⟩ | ⟨ds, rfl | rfl, heq⟩
  · exact ⟨'-', rfl, .inl rfl⟩
  · exact ⟨'+', rfl, .inr (.inl rfl)⟩
  · obtain ⟨size, hsize, -⟩ := Option.bind_eq_some_iff.1 (heq.symm.trans h)
    cases cs with
    | nil => cases hsize
    | cons c cs =>
      obtain ⟨ds, hds, -⟩ := Option.map_eq_some_iff.1 hsize
      obtain ⟨d, hd, -⟩ := Option.bind_eq_some_iff.1 hds
      exact ⟨c, rfl, .inr (.inr (Option.isSome_of_eq_some hd))⟩

/-- A number in the range of 64 bits is taken as it is. -/
theorem inRange?_eq_some {n : Int} (hmin : minInt ≤ n) (hmax : n ≤ maxInt) : inRange? n = some n :=
  if_pos ⟨hmin, hmax⟩

/-- **A decimal rendering is read**, if the integer is in the range. -/
theorem IsDecimal.readInt? {n : Int} {cs : List Char} (h : IsDecimal n cs) (hmin : minInt ≤ n)
    (hmax : n ≤ maxInt) :
    Number.readInt? 10 cs = some n := by
  have hdigits := readDigits?_digitsOf (by decide : 1 < 10) (by decide)
  cases h with
  | bare n zeros => rw [readInt?_of_readDigits? (hdigits zeros n), inRange?_eq_some hmin hmax]
  | plus n zeros =>
    rw [Number.readInt?, hdigits zeros n, Option.bind_some, inRange?_eq_some hmin hmax]
  | @minus n _ zeros =>
    rw [Number.readInt?, hdigits zeros n, Option.bind_some, inRange?_eq_some hmin hmax]

/-- The mark of a hexadecimal literal ends the digits of a decimal one. -/
theorem readInt?_marked {mark : Char} (hmark : mark = 'x' ∨ mark = 'X') (cs : List Char) :
    readInt? 10 ('0' :: mark :: cs) = none ∧ readInt? 10 ('-' :: '0' :: mark :: cs) = none := by
  rcases hmark with rfl | rfl <;> exact ⟨rfl, rfl⟩

/-- A text with the mark of a hexadecimal number is not a fraction. -/
theorem read?_marked {mark : Char} (hmark : mark = 'x' ∨ mark = 'X') (cs : List Char) :
    Scientific.read? ('0' :: mark :: cs) = none ∧
      Scientific.read? ('-' :: '0' :: mark :: cs) = none := by
  have hspan : spanDigits ('0' :: mark :: cs) = (['0'], mark :: cs) := by
    rw [spanDigits, List.span_eq_takeWhile_dropWhile]
    rcases hmark with rfl | rfl <;> rfl
  have hfraction : ∀ negative, readFraction? negative ('0' :: mark :: cs) = none := by
    intro negative
    simp only [readFraction?, hspan]
    rcases hmark with rfl | rfl <;> rfl
  exact ⟨hfraction false, hfraction true⟩

/-- The opposite of an integer other than the least one is its negative. -/
theorem opposite_of_lt {n : Int} (hmin : minInt < n) (hmax : n ≤ maxInt) : opposite n = -n := by
  rw [minInt] at hmin
  rw [maxInt] at hmax
  have hsize : ((UInt64.size : Nat) : Int) = 18446744073709551616 := rfl
  exact Int.bmod_eq_of_le_mul_two (by omega) (by omega)

/-- A hexadecimal literal is neither a decimal integer nor a fraction, and its size has to be in the
range before the minus counts. -/
theorem IsHex.read {n : Int} {cs : List Char} (h : IsHex n cs) :
    readInt? 10 cs = none ∧ readFloat? cs = none ∧
      readHex? cs = if minInt < n ∧ n ≤ maxInt then some n else none := by
  have hsize : ∀ {n zeros : Nat} {cs : List Char}, cs.map Char.toLower = digitsOf 16 zeros n →
      Number.readInt? 16 cs = inRange? n := fun {n zeros cs} hcs => readInt?_of_readDigits? <| by
    rw [← readDigits?_toLower, hcs, readDigits?_digitsOf (by decide) (by decide)]
  cases h with
  | @bare n zeros mark cs hmark hcs =>
    refine ⟨(readInt?_marked hmark cs).1, by rw [readFloat?, (read?_marked hmark cs).1]; rfl, ?_⟩
    have hhex : readHex? ('0' :: mark :: cs) = inRange? n := by
      rw [← hsize hcs]
      rcases hmark with rfl | rfl <;> rfl
    have hrange : (minInt ≤ n ∧ n ≤ maxInt) ↔ minInt < n ∧ n ≤ maxInt := by
      simp only [minInt]
      omega
    simp only [hhex, inRange?, hrange]
  | @minus n zeros mark cs hn hmark hcs =>
    refine ⟨(readInt?_marked hmark cs).2, by rw [readFloat?, (read?_marked hmark cs).2]; rfl, ?_⟩
    have hhex : readHex? ('-' :: '0' :: mark :: cs) = (inRange? n).map opposite := by
      rw [← hsize hcs]
      rcases hmark with rfl | rfl <;> rfl
    have hrange : (minInt ≤ n ∧ n ≤ maxInt) ↔ minInt < -(n : Int) ∧ -(n : Int) ≤ maxInt := by
      simp only [minInt, maxInt]
      omega
    rw [hhex, inRange?]
    split_ifs with hin hnot hnot
    · rw [Option.map_some, opposite_of_lt (by rw [minInt]; omega) hin.2]
    · exact absurd (hrange.1 hin) hnot
    · exact absurd (hrange.2 hnot) hin
    · rfl

end Number

namespace Value

open Number

/-! ## Values -/

/-- A text that starts with neither a `t` nor an `f` is no truth value. -/
theorem not_word {s : String} {c : Char} (hc : s.toList.head? = some c) (ht : c.toLower ≠ 't')
    (hf : c.toLower ≠ 'f') :
    s ≠ "" ∧ Text.sameKeyword s "true" = false ∧ Text.sameKeyword s "false" = false := by
  have hkeyword : ∀ keyword : String, keyword.toList.head?.map Char.toLower ≠ some c.toLower →
      Text.sameKeyword s keyword = false := by
    intro keyword hhead
    refine Bool.eq_false_iff.2 fun hsame => hhead ?_
    rw [← Text.head_of_sameKeyword hsame, hc]
    rfl
  refine ⟨?_, hkeyword "true" fun h => ht ?_, hkeyword "false" fun h => hf ?_⟩
  · rintro rfl
    cases hc
  · exact Option.some.inj (h.symm.trans (by decide +kernel))
  · exact Option.some.inj (h.symm.trans (by decide +kernel))

/-- **A decimal integer is read as an integer.** -/
theorem read_of_readInt? {n : Int} {s : String} (h : readInt? 10 s.toList = some n) :
    read s = .int n := by
  obtain ⟨c, hc, hstart⟩ := head_of_readInt? h
  have hletter : ∀ letter, digit? 10 letter = none → '-'.toLower ≠ letter → '+'.toLower ≠ letter →
      c.toLower ≠ letter := by
    rintro letter hnone hminus hplus rfl
    rcases hstart with rfl | rfl | hdigit
    · exact hminus rfl
    · exact hplus rfl
    · rw [← digit?_toLower, hnone] at hdigit
      cases hdigit
  obtain ⟨hne, htrue, hfalse⟩ := not_word hc (hletter 't' rfl (by decide) (by decide))
    (hletter 'f' rfl (by decide) (by decide))
  simp only [read, if_neg hne, htrue, hfalse, Bool.false_eq_true, if_false, h]

/-- **A hexadecimal rendering is read** if the integer is in the range and not the least one, and is
text else. -/
theorem read_of_isHex {n : Int} {s : String} (h : IsHex n s.toList) :
    read s = if minInt < n ∧ n ≤ maxInt then .int n else .text s := by
  obtain ⟨hint, hfloat, hhex⟩ := h.read
  obtain ⟨c, hc, hstart⟩ : ∃ c, s.toList.head? = some c ∧ (c = '0' ∨ c = '-') := by
    generalize s.toList = cs at h
    cases h with
    | bare => exact ⟨'0', rfl, .inl rfl⟩
    | minus => exact ⟨'-', rfl, .inr rfl⟩
  obtain ⟨hne, htrue, hfalse⟩ := not_word hc (by rcases hstart with rfl | rfl <;> decide)
    (by rcases hstart with rfl | rfl <;> decide)
  have hfinite : readFinite? s.toList = none := by
    cases hcs : s.toList with
    | nil => rfl
    | cons c cs => rw [readFinite?, ← hcs, hfloat, ite_self]
  simp only [read, if_neg hne, htrue, hfalse, Bool.false_eq_true, if_false, hint, hfinite, hhex]
  split_ifs <;> rfl

/-- **What the renderings of an integer read as.** A decimal rendering of a 64-bit integer is read
as this integer, and so is a hexadecimal one of every 64-bit integer but the least. A hexadecimal
rendering of any other integer is text. -/
theorem read_rendering (s : String) (n : Int) :
    (IsDecimal n s.toList → minInt ≤ n → n ≤ maxInt → read s = .int n) ∧
      (IsHex n s.toList → minInt ≤ n → n ≤ maxInt → (read s = .int n ↔ n ≠ minInt)) ∧
      (IsHex n s.toList → ¬ (minInt ≤ n ∧ n ≤ maxInt) → ∀ k, read s ≠ .int k) ∧
      (IsHex n s.toList → n = minInt → read s = .text s) := by
  refine ⟨fun h hmin hmax => read_of_readInt? (h.readInt? hmin hmax), fun h hmin hmax => ?_,
    fun h hout k => ?_, fun h hleast => ?_⟩
  all_goals rw [read_of_isHex h]
  · constructor
    · rintro hread rfl
      rw [if_neg (by omega)] at hread
      cases hread
    · intro hne
      rw [if_pos ⟨by omega, hmax⟩]
  · rw [if_neg (by omega)]
    exact Value.noConfusion
  · rw [if_neg (by omega)]

/-- The least integer is read in decimal, with zeros in front, and the one above it in hexadecimal;
the one above the greatest integer is text. -/
theorem read_extremes :
    IsDecimal minInt "-009223372036854775808".toList ∧ read "-009223372036854775808" = .int minInt ∧
      IsHex (minInt + 1) "-0X07fFfFfFfFfFfFfFf".toList ∧
      read "-0X07fFfFfFfFfFfFfFf" = .int (minInt + 1) ∧
      IsHex (maxInt + 1) "0x8000000000000000".toList ∧ ∀ k, read "0x8000000000000000" ≠ .int k := by
  have hleast : IsDecimal minInt "-009223372036854775808".toList := by
    have htext : "-009223372036854775808".toList = '-' :: digitsOf 10 2 9223372036854775808 := by
      decide +kernel
    rw [htext]
    exact .minus (by decide) 2
  have hnext : IsHex (minInt + 1) "-0X07fFfFfFfFfFfFfFf".toList := by
    have htext : "-0X07fFfFfFfFfFfFfFf".toList =
      '-' :: '0' :: 'X' :: "07fFfFfFfFfFfFfFf".toList := by decide +kernel
    rw [htext]
    exact @IsHex.minus 9223372036854775807 1 _ _ (by decide) (.inr rfl) (by decide +kernel)
  have hbeyond : IsHex (maxInt + 1) "0x8000000000000000".toList := by
    have htext : "0x8000000000000000".toList = '0' :: 'x' :: "8000000000000000".toList := by
      decide +kernel
    rw [htext]
    exact @IsHex.bare 9223372036854775808 0 _ _ (.inl rfl) (by decide +kernel)
  exact ⟨hleast, (read_rendering _ _).1 hleast (by decide) (by decide), hnext,
    ((read_rendering _ _).2.1 hnext (by decide) (by decide)).2 (by decide), hbeyond,
    (read_rendering _ _).2.2.1 hbeyond (by decide)⟩

/-- The least integer in hexadecimal is not read as an integer. -/
theorem least_hex_not_read : IsHex minInt "-0x8000000000000000".toList ∧ minInt ≤ maxInt ∧
    read "-0x8000000000000000" ≠ .int minInt := by
  have htext : "-0x8000000000000000".toList = '-' :: '0' :: 'x' :: "8000000000000000".toList := by
    decide +kernel
  refine ⟨?_, by decide, by decide +kernel⟩
  rw [htext]
  exact @IsHex.minus 9223372036854775808 0 _ _ (by decide) (.inl rfl) (by decide +kernel)

end Value

end StepScript
