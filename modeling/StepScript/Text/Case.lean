import StepScript.Text.CaseTable

/-!
# Text/Case — letter case

Two notions of case live side by side. Names that users choose (variables, labels, functions) are
folded with the full Unicode lower-case mapping, `lower`. Keywords and file extensions ignore the
case of ASCII letters only, `sameKeyword`.
-/

namespace StepScript.Text

/-! ## ASCII case -/

/-- The text with `A`–`Z` replaced by `a`–`z` and every other character kept. -/
def asciiLower (s : String) : String := String.ofList (s.toList.map Char.toLower)

/-- Equality up to the case of ASCII letters. -/
def sameKeyword (a b : String) : Bool := asciiLower a == asciiLower b

/-! ## Unicode case -/

/-- The lower-case form of one character, neighbours aside. Only `İ` needs two characters. -/
def lowerChar (c : Char) : List Char :=
  let n := c.toNat
  if n < 0x80 then [c.toLower]
  else if n = 0x130 then ['i', Char.ofNat 0x307]
  else
    match lowerRuns.findSome? (·.image? n) with
    | some m => [Char.ofNat m]
    | none => [c]

/-- Whether the nearest character that is not looked through has a case. -/
def meetsCased (cs : List Char) : Bool :=
  match cs.dropWhile fun c => inRanges caseIgnorableRanges c.toNat with
  | c :: _ => inRanges casedRanges c.toNat
  | [] => false

/-- The lower-case form of a character between its neighbours, nearest first on either side. A
capital sigma becomes the final sigma at the end of a word and the ordinary one elsewhere. -/
def lowerBetween (before : List Char) (c : Char) (after : List Char) : List Char :=
  if c = 'Σ' then [if meetsCased before && !meetsCased after then 'ς' else 'σ'] else lowerChar c

/-- The lower-case form of `cs`, where `before` is what precedes it, nearest first. -/
def lowerChars (before : List Char) : List Char → List Char
  | [] => []
  | c :: cs => lowerBetween before c cs ++ lowerChars (c :: before) cs

/-- The same after what is `done` already, which is kept in reverse. No step waits for a later one,
so a long text needs no deep recursion. -/
def lowerOnto (done before : List Char) : List Char → List Char
  | [] => done.reverse
  | c :: cs => lowerOnto ((lowerBetween before c cs).reverse ++ done) (c :: before) cs

/-- **The lower-case form of a text** — the full Unicode mapping, final sigma included. -/
def lower (s : String) : String := String.ofList (lowerOnto [] [] s.toList)

@[simp] theorem lowerChars_nil (before : List Char) : lowerChars before [] = [] := rfl

theorem lowerOnto_eq (done before cs : List Char) :
    lowerOnto done before cs = done.reverse ++ lowerChars before cs := by
  induction cs generalizing done before with
  | nil => simp [lowerOnto]
  | cons c cs ih => simp [lowerOnto, lowerChars, ih]

theorem toList_lower (s : String) : (lower s).toList = lowerChars [] s.toList := by
  simp [lower, lowerOnto_eq]

@[simp] theorem sameKeyword_refl (a : String) : sameKeyword a a = true := by
  simp [sameKeyword]

theorem head_of_sameKeyword {token keyword : String} (h : sameKeyword token keyword = true) :
    token.toList.head?.map Char.toLower = keyword.toList.head?.map Char.toLower := by
  have hlist := congrArg String.toList (beq_iff_eq.1 h)
  rw [asciiLower, asciiLower, String.toList_ofList, String.toList_ofList] at hlist
  simpa using congrArg List.head? hlist

theorem mem_of_sameKeyword {token keyword : String} {c : Char}
    (h : sameKeyword token keyword = true) (hc : c ∈ token.toList) :
    c.toLower ∈ keyword.toList.map Char.toLower := by
  have hlist := congrArg String.toList (beq_iff_eq.1 h)
  rw [asciiLower, asciiLower, String.toList_ofList, String.toList_ofList] at hlist
  exact hlist ▸ List.mem_map_of_mem hc

end StepScript.Text
