/-!
# Number/Digits — numbers written by digits

The value of a run of digits is `d₀ + base · (d₁ + base · (d₂ + …))`, the last digit written being
`d₀`. `ofDigits` arrives at it by joining neighbours: two digits make one digit in the squared base,
and so on until one is left. The sizes of the factors stay balanced, so a long run costs little more
than a few long multiplications.

* `ofDigits_cons`, `ofDigits_nil` — `ofDigits` is that value.
* `readDigits?` — the number written by a run of digits.
-/

namespace StepScript.Number

/-- The value of a digit in a base of at most sixteen; letters may have either case. -/
def digit? (base : Nat) (c : Char) : Option Nat :=
  let n := c.toNat
  let value :=
    if '0'.toNat ≤ n ∧ n ≤ '9'.toNat then n - '0'.toNat
    else if 'a'.toNat ≤ n ∧ n ≤ 'f'.toNat then n - 'a'.toNat + 10
    else if 'A'.toNat ≤ n ∧ n ≤ 'F'.toNat then n - 'A'.toNat + 10
    else base
  if value < base then some value else none

/-- The value of digits, lowest first, read off one by one. -/
def horner (base : Nat) (ds : List Nat) : Nat := ds.foldr (fun d n => d + base * n) 0

/-- Joins neighbouring digits, lowest first, to digits in the squared base. -/
def pairUp (base : Nat) : List Nat → List Nat
  | low :: high :: ds => (low + base * high) :: pairUp base ds
  | ds => ds

/-- The value of digits, lowest first, after at most `rounds` rounds of joining. -/
def join : (rounds : Nat) → (base : Nat) → List Nat → Nat
  | _, _, [] => 0
  | _, _, [d] => d
  | 0, base, ds => horner base ds
  | rounds + 1, base, ds => join rounds (base * base) (pairUp base ds)

/-- **The value of digits, lowest first.** -/
def ofDigits (base : Nat) (ds : List Nat) : Nat := join ds.length base ds

theorem horner_pairUp (base : Nat) (ds : List Nat) :
    horner (base * base) (pairUp base ds) = horner base ds := by
  fun_induction pairUp base ds with
  | case1 low high ds ih =>
    have ih' : horner (base * base) (pairUp base ds) = horner base ds := ih
    simp only [horner, List.foldr_cons] at ih' ⊢
    rw [ih', Nat.mul_add, Nat.mul_assoc, Nat.add_assoc]
  | case2 ds short =>
    match ds, short with
    | [], _ => rfl
    | [d], _ => simp [horner]
    | low :: high :: ds, short => exact absurd rfl (short low high ds)

theorem join_eq_horner (rounds base : Nat) (ds : List Nat) :
    join rounds base ds = horner base ds := by
  fun_induction join rounds base ds with
  | case1 => rfl
  | case2 => simp [horner]
  | case3 => rfl
  | case4 base rounds ds _ _ ih => rw [ih, horner_pairUp]

/-- Joining neighbours does not change the value. -/
theorem ofDigits_eq_horner (base : Nat) (ds : List Nat) : ofDigits base ds = horner base ds :=
  join_eq_horner ds.length base ds

@[simp] theorem ofDigits_nil (base : Nat) : ofDigits base [] = 0 := rfl

@[simp] theorem ofDigits_cons (base d : Nat) (ds : List Nat) :
    ofDigits base (d :: ds) = d + base * ofDigits base ds := by
  simp [ofDigits_eq_horner, horner]

/-! ## Reading -/

/-- The digits of a text, lowest first; `low` are those before it. -/
def digitsAfter? (base : Nat) (low : List Nat) : List Char → Option (List Nat)
  | [] => some low
  | c :: cs => (digit? base c).bind fun d => digitsAfter? base (d :: low) cs

/-- **The number written by a non-empty run of digits.** -/
def readDigits? (base : Nat) : List Char → Option Nat
  | [] => none
  | cs => (digitsAfter? base [] cs).map (ofDigits base)

/-- The value of a run of decimal digits, zero for an empty one. -/
def digitsValue (cs : List Char) : Nat :=
  ofDigits 10 (cs.foldl (fun low c => (c.toNat - '0'.toNat) :: low) [])

end StepScript.Number
