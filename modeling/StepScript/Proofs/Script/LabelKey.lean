import Mathlib.Data.List.Flatten
import StepScript.Proofs.Script.Extent
import StepScript.Proofs.Script.LabelLine

/-!
# Proofs/Script/LabelKey — under which key a label is found

A label is entered under the key of its name, and its name is what stands between the brackets of
its token. Whoever writes the token asks for the key of the token. Both keys take one pair of
brackets off, but the first does so after one pair has gone already. So the two are the same key
exactly if the name is not in brackets itself.

* `Text.isSome_unbracket?_lower` — case does not touch brackets.
* `labelKey_name_eq_iff` — when the two keys of a label are the same.
* `Declarations.find?_gotos`, `Declarations.find?_gosubs` — a key leads to the first command that
  declares it.
-/

namespace StepScript

/-- What has brackets taken off is what stood between them. -/
theorem unbracket?_eq_some_iff {cs inner : List Char} :
    unbracket? cs = some inner ↔ cs = '[' :: (inner ++ [']']) := by
  constructor
  · intro h
    unfold unbracket? at h
    split at h
    · next rest =>
      split at h
      · next hlast =>
        obtain ⟨front, rfl⟩ := List.getLast?_eq_some_iff.1 hlast
        rw [List.dropLast_concat] at h
        rw [Option.some.inj h]
      · cases h
    · cases h
  · rintro rfl
    simp [unbracket?]

/-- A text is in brackets if it begins with the one and ends with the other. -/
theorem isSome_unbracket?_iff {cs : List Char} :
    (unbracket? cs).isSome = true ↔ cs.head? = some '[' ∧ cs.getLast? = some ']' := by
  rw [Option.isSome_iff_exists]
  constructor
  · rintro ⟨inner, h⟩
    rw [unbracket?_eq_some_iff.1 h, ← List.cons_append, List.getLast?_concat]
    exact ⟨rfl, rfl⟩
  · rintro ⟨hhead, hlast⟩
    obtain ⟨rest, rfl⟩ := List.head?_eq_some_iff.1 hhead
    obtain ⟨front, hfront⟩ := List.getLast?_eq_some_iff.1 hlast
    cases front with
    | nil => cases hfront
    | cons c inner =>
      obtain ⟨rfl, rfl⟩ := List.cons.inj hfront
      exact ⟨inner, unbracket?_eq_some_iff.2 rfl⟩

/-! ## Case and brackets -/

namespace Text

/-- A bracket. -/
def isBracket (c : Char) : Bool := c == '[' || c == ']'

/-- Outside ASCII all small letters come after the brackets. -/
theorem lowerRuns_beyond : ∀ r ∈ lowerRuns, (93 : Int) < r.first + r.shift := by
  decide +kernel

theorem not_isBracket_ofNat {n : Nat} (h : 93 < n) : isBracket (Char.ofNat n) = false := by
  refine Bool.eq_false_iff.2 fun hbracket => ?_
  have hsmall : (Char.ofNat n).toNat = 91 ∨ (Char.ofNat n).toNat = 93 := by
    rcases Bool.or_eq_true_iff.1 hbracket with heq | heq <;> rw [beq_iff_eq.1 heq] <;> decide
  have hnumber : (Char.ofNat n).toNat = n ∨ (Char.ofNat n).toNat = 0 := by
    by_cases hvalid : n.isValidChar
    · exact .inl (congrArg Char.toNat (dif_pos hvalid))
    · exact .inr (congrArg Char.toNat (dif_neg hvalid))
  omega

/-- No character but a bracket has one for its lower case. -/
theorem isBracket_toLower {c : Char} (h : isBracket c.toLower = true) : c.toLower = c := by
  unfold Char.toLower at h ⊢
  split
  · next hupper =>
    rw [dif_pos hupper] at h
    have hlow := UInt32.le_iff_toNat_le.1 hupper.1
    have hhigh := UInt32.le_iff_toNat_le.1 hupper.2
    simp [isBracket, Char.ext_iff, ← UInt32.toNat_inj] at h hlow hhigh
    omega
  · rfl

/-- A bracket is the small form of nothing but itself. -/
theorem eq_of_mem_lowerBetween {before after : List Char} {c b : Char} (hb : isBracket b = true)
    (hmem : b ∈ lowerBetween before c after) : c = b := by
  have hout : ∀ d, isBracket d = false → b ≠ d := by
    rintro d hd rfl
    rw [hd] at hb
    cases hb
  unfold lowerBetween at hmem
  split at hmem
  · refine absurd (List.mem_singleton.1 hmem) (hout _ ?_)
    split <;> decide
  · unfold lowerChar at hmem
    dsimp only at hmem
    split at hmem
    · have hlower := List.mem_singleton.1 hmem
      rw [hlower] at hb ⊢
      exact (isBracket_toLower hb).symm
    · split at hmem
      · rcases List.mem_cons.1 hmem with hi | hdot
        · exact absurd hi (hout _ (by decide))
        · exact absurd (List.mem_singleton.1 hdot) (hout _ (by decide))
      · split at hmem
        · next n hn =>
          obtain ⟨r, hr, himage⟩ := List.exists_of_findSome?_eq_some hn
          unfold LowerRun.image? at himage
          split at himage
          · next hin =>
            have hbeyond := lowerRuns_beyond r hr
            refine absurd (List.mem_singleton.1 hmem) (hout _ (not_isBracket_ofNat ?_))
            rw [← Option.some.inj himage]
            omega
          · cases himage
        · exact (List.mem_singleton.1 hmem).symm

/-- A bracket is its own lower case. -/
theorem lowerBetween_bracket {before after : List Char} {b : Char} (hb : isBracket b = true) :
    lowerBetween before b after = [b] := by
  rcases Bool.or_eq_true_iff.1 hb with heq | heq <;> rw [beq_iff_eq.1 heq] <;> rfl

theorem lowerBetween_ne_nil (before : List Char) (c : Char) (after : List Char) :
    lowerBetween before c after ≠ [] := by
  unfold lowerBetween lowerChar
  dsimp only
  repeat' split
  all_goals exact List.cons_ne_nil _ _

theorem lowerChars_eq_nil_iff {before cs : List Char} : lowerChars before cs = [] ↔ cs = [] := by
  cases cs with
  | nil => simp
  | cons c cs => simp [lowerChars, lowerBetween_ne_nil]

/-- Lower case begins with a bracket exactly if the text does. -/
theorem head?_lowerChars {before cs : List Char} {b : Char} (hb : isBracket b = true) :
    (lowerChars before cs).head? = some b ↔ cs.head? = some b := by
  cases cs with
  | nil => rfl
  | cons c cs =>
    rw [lowerChars, List.head?_append_of_ne_nil _ (lowerBetween_ne_nil before c cs),
      List.head?_cons, Option.some.injEq]
    constructor
    · exact fun h => eq_of_mem_lowerBetween hb (List.mem_of_mem_head? h)
    · rintro rfl
      rw [lowerBetween_bracket hb]
      rfl

/-- It ends with one exactly if the text does. -/
theorem getLast?_lowerChars {before cs : List Char} {b : Char} (hb : isBracket b = true) :
    (lowerChars before cs).getLast? = some b ↔ cs.getLast? = some b := by
  induction cs generalizing before with
  | nil => rfl
  | cons c cs ih =>
    cases cs with
    | nil =>
      rw [lowerChars, lowerChars_nil, List.append_nil, List.getLast?_singleton, Option.some.injEq]
      constructor
      · exact fun h => eq_of_mem_lowerBetween hb (List.mem_of_getLast? h)
      · rintro rfl
        rw [lowerBetween_bracket hb]
        rfl
    | cons d cs =>
      rw [lowerChars,
        List.getLast?_append_of_ne_nil _ (mt lowerChars_eq_nil_iff.1 (List.cons_ne_nil d cs)), ih,
        List.getLast?_cons_cons]

/-- **Case does not touch brackets.** -/
theorem isSome_unbracket?_lower (s : String) :
    (unbracket? (lower s).toList).isSome = (unbracket? s.toList).isSome := by
  rw [Bool.eq_iff_iff, isSome_unbracket?_iff, isSome_unbracket?_iff, toList_lower,
    head?_lowerChars rfl, getLast?_lowerChars rfl]

theorem trimChars_sublist (cs : List Char) : (trimChars cs).Sublist cs :=
  (List.rdropWhile_prefix isSpace _).sublist.trans (List.dropWhile_sublist isSpace)

/-- How long a lower-case form is depends on the characters alone. -/
theorem length_lowerChars (before cs : List Char) :
    (lowerChars before cs).length = (cs.flatMap fun c => lowerBetween [] c []).length := by
  have hone : ∀ before c after, (lowerBetween before c after).length =
      (lowerBetween [] c []).length := by
    intro before c after
    unfold lowerBetween
    split <;> rfl
  induction cs generalizing before with
  | nil => rfl
  | cons c cs ih =>
    rw [lowerChars, List.length_append, ih, hone, List.flatMap_cons, List.length_append]

/-- Taking the brackets off makes a lower-case form shorter. -/
theorem length_lower_lt {s : String} {inner part : List Char} (h : unbracket? s.toList = some inner)
    (hpart : part.Sublist inner) : (lower (String.ofList part)).length < (lower s).length := by
  have hle := (hpart.flatMap fun c => lowerBetween [] c []).length_le
  rw [← String.length_toList, ← String.length_toList, toList_lower, toList_lower,
    String.toList_ofList, length_lowerChars, length_lowerChars, unbracket?_eq_some_iff.1 h,
    List.flatMap_cons, List.flatMap_append,
    lowerBetween_bracket rfl, List.length_append, List.length_append, List.length_singleton]
  omega

end Text

/-! ## The two keys of a label -/

/-- The name of a label is trimmed and is what stands between the brackets of its token. -/
theorem labelInner?_eq_some {token name : String} (h : labelInner? token = some name) :
    ∃ inner, unbracket? token.toList = some inner ∧
      name = String.ofList (Text.trimChars inner) := by
  obtain ⟨inner, hinner, hname⟩ := Option.bind_eq_some_iff.1 h
  dsimp only at hname
  split at hname
  · cases hname
  · exact ⟨inner, hinner, (Option.some.inj hname).symm⟩

/-- A token in brackets has no white space to lose. -/
theorem trimChars_of_unbracket? {cs inner : List Char} (h : unbracket? cs = some inner) :
    Text.trimChars cs = cs := by
  obtain ⟨hhead, hlast⟩ := isSome_unbracket?_iff.1 (Option.isSome_of_eq_some h)
  refine Text.trimChars_eq_self (fun c hc => ?_) fun c hc => ?_
  · rw [hhead] at hc
    obtain rfl := Option.some.inj hc
    decide
  · rw [hlast] at hc
    obtain rfl := Option.some.inj hc
    decide

/-- Whoever writes the token of a label asks for its name in lower case. -/
theorem labelKey_of_labelInner? {token name : String} (h : labelInner? token = some name) :
    labelKey token = Text.lower name := by
  obtain ⟨inner, hinner, rfl⟩ := labelInner?_eq_some h
  rw [labelKey, trimChars_of_unbracket? hinner, hinner]
  rfl

/-- **The two keys of a label are the same** exactly if its name is not in brackets itself. -/
theorem labelKey_name_eq_iff {token name : String} (h : labelInner? token = some name) :
    labelKey name = labelKey token ↔ unbracket? name.toList = none := by
  have htrim : Text.trimChars name.toList = name.toList := by
    obtain ⟨inner, -, rfl⟩ := labelInner?_eq_some h
    rw [String.toList_ofList, Text.trimChars_trimChars]
  rw [labelKey_of_labelInner? h, labelKey, htrim]
  cases hname : unbracket? name.toList with
  | none => simp [htrim]
  | some inner =>
    have hshorter := Text.length_lower_lt hname (Text.trimChars_sublist inner)
    simp only [Option.getD_some, reduceCtorEq, iff_false]
    intro hsame
    rw [hsame] at hshorter
    exact lt_irrefl _ hshorter

namespace Command

variable {c : Command} {key : String}

/-- The key under which a label is entered. -/
def labelKey? (c : Command) : Option String := c.label?.map labelKey

/-- The key that the token of a label asks for. -/
def tokenKey? (c : Command) : Option String :=
  if c.isLabel then c.tokens.head?.map labelKey else none

/-- Whether the name of a label is in brackets itself. -/
def isNested (c : Command) : Bool := c.label?.any fun name => (unbracket? name.toList).isSome

/-- The key under which a subroutine is entered. -/
def gosubKey? (c : Command) : Option String :=
  if !c.isLabel && c.startsWith beginsub then c.tokens[1]?.map labelKey else none

/-- A label is a command of one token, the name in brackets. -/
theorem label?_eq_some {name : String} (h : c.label? = some name) :
    ∃ token, c.tokens = [token] ∧ labelInner? token = some name := by
  unfold label? at h
  split at h
  · next token htokens => exact ⟨token, htokens, h⟩
  · cases h

/-- A label is asked for by the key of its token. -/
theorem tokenKey?_of_label {token : String} (htokens : c.tokens = [token])
    (hlabel : c.isLabel = true) :
    c.tokenKey? = some (labelKey token) := by
  rw [tokenKey?, if_pos hlabel, htokens]
  rfl

theorem tokenKey?_eq_some (h : c.tokenKey? = some key) :
    ∃ token name, c.tokens = [token] ∧ c.label? = some name ∧ labelInner? token = some name ∧
      labelKey token = key := by
  have hlabel : c.isLabel = true := by
    by_contra hnot
    rw [tokenKey?, if_neg hnot] at h
    cases h
  obtain ⟨name, hname⟩ := Option.isSome_iff_exists.1 hlabel
  obtain ⟨token, htokens, hinner⟩ := label?_eq_some hname
  rw [tokenKey?_of_label htokens hlabel] at h
  exact ⟨token, name, htokens, hname, hinner, Option.some.inj h⟩

/-- Whether a label is nested shows in the key that its token asks for. -/
theorem isNested_of_tokenKey? (h : c.tokenKey? = some key) :
    c.isNested = (unbracket? key.toList).isSome := by
  obtain ⟨token, name, -, hname, hinner, rfl⟩ := tokenKey?_eq_some h
  rw [isNested, hname, labelKey_of_labelInner? hinner, Text.isSome_unbracket?_lower]
  rfl

/-- A label is entered under the key that its token asks for exactly if it is not nested. -/
theorem labelKey?_eq_tokenKey?_iff : c.labelKey? = c.tokenKey? ↔ c.isNested = false := by
  cases hname : c.label? with
  | none => simp [labelKey?, tokenKey?, isNested, isLabel, hname]
  | some name =>
    obtain ⟨token, htokens, hinner⟩ := label?_eq_some hname
    rw [tokenKey?_of_label htokens (Option.isSome_of_eq_some hname), labelKey?, isNested, hname,
      Option.map_some, Option.some.injEq, labelKey_name_eq_iff hinner, Option.any_some,
      Option.isSome_eq_false_iff,
      Option.isNone_iff_eq_none]

end Command

/-- A key **leads home** if the first label entered under it is the first label whose token asks for
it. -/
def LeadsHome (commands : List Command) (key : String) (index : Nat) : Prop :=
  commands.findIdx? (fun c => c.labelKey? == some key) = some index ∧
    commands.findIdx? (fun c => c.tokenKey? == some key) = some index

/-- **Which keys lead home**: those that lead to a label that is not nested. -/
theorem leadsHome_iff {commands : List Command} {key : String} {index : Nat} :
    LeadsHome commands key index ↔
      commands.findIdx? (fun c => c.labelKey? == some key) = some index ∧
        ∃ c, commands[index]? = some c ∧ c.isNested = false := by
  refine and_congr_right fun hfirst => ?_
  obtain ⟨hlt, hkey, hbefore⟩ := List.findIdx?_eq_some_iff_getElem.1 hfirst
  rw [beq_iff_eq] at hkey
  constructor
  · intro htoken
    obtain ⟨_, hasks, -⟩ := List.findIdx?_eq_some_iff_getElem.1 htoken
    rw [beq_iff_eq] at hasks
    exact ⟨_, List.getElem?_eq_getElem hlt,
      Command.labelKey?_eq_tokenKey?_iff.1 (hkey.trans hasks.symm)⟩
  · rintro ⟨c, hc, hplain⟩
    obtain rfl := Option.some.inj ((List.getElem?_eq_getElem hlt).symm.trans hc)
    have hasks := (Command.labelKey?_eq_tokenKey?_iff.2 hplain).symm.trans hkey
    refine List.findIdx?_eq_some_iff_getElem.2 ⟨hlt, beq_iff_eq.2 hasks,
      fun j hj hsame => hbefore j hj ?_⟩
    -- An earlier label whose token asks for the key is as plain as this one, so it is entered under
    -- it too.
    rw [beq_iff_eq] at hsame ⊢
    rw [Command.isNested_of_tokenKey? hasks, ← Command.isNested_of_tokenKey? hsame] at hplain
    exact (Command.labelKey?_eq_tokenKey?_iff.2 hplain).trans hsame

/-- **All labels are found by their tokens** exactly if none of them is nested. -/
theorem forall_leadsHome_iff {commands : List Command} :
    (∀ c ∈ commands, ∀ key, c.tokenKey? = some key → ∃ index, LeadsHome commands key index) ↔
      ∀ c ∈ commands, c.isNested = false := by
  constructor
  · intro hhome c hc
    by_contra hnested
    rw [Bool.not_eq_false] at hnested
    obtain ⟨name, hname, -⟩ := (Option.any_eq_true _ _).1 hnested
    obtain ⟨token, htokens, hinner⟩ := Command.label?_eq_some hname
    have hasks := Command.tokenKey?_of_label htokens (Option.isSome_of_eq_some hname)
    obtain ⟨index, hleads⟩ := hhome c hc _ hasks
    obtain ⟨-, c', hc', hplain⟩ := leadsHome_iff.1 hleads
    obtain ⟨hlt, hasks', -⟩ := List.findIdx?_eq_some_iff_getElem.1 hleads.2
    obtain rfl := Option.some.inj ((List.getElem?_eq_getElem hlt).symm.trans hc')
    rw [beq_iff_eq] at hasks'
    rw [Command.isNested_of_tokenKey? hasks', ← Command.isNested_of_tokenKey? hasks,
      hnested] at hplain
    cases hplain
  · intro hplain c hc key hasks
    have hsome : (commands.findIdx? fun c => c.labelKey? == some key).isSome = true := by
      rw [List.findIdx?_isSome, List.any_eq_true]
      exact ⟨c, hc, beq_iff_eq.2 ((Command.labelKey?_eq_tokenKey?_iff.2 (hplain c hc)).trans hasks)⟩
    obtain ⟨index, hfirst⟩ := Option.isSome_iff_exists.1 hsome
    obtain ⟨hlt, -, -⟩ := List.findIdx?_eq_some_iff_getElem.1 hfirst
    exact ⟨index, leadsHome_iff.2 ⟨hfirst, _, List.getElem?_eq_getElem hlt,
      hplain _ (List.getElem_mem hlt)⟩⟩

/-! ## First declarations -/

namespace Declarations

/-- A label is entered under its key unless the key is taken. -/
theorem find?_gotos_declare (script : String) (d : Declarations) (index : Nat) (c : Command)
    (key : String) :
    (d.declare script index c).gotos.find? key =
      (d.gotos.find? key).or (if c.labelKey? == some key then some index else none) := by
  unfold declare Command.labelKey?
  cases c.label? with
  | some name => exact find?_enter_eq ..
  | none =>
    dsimp only
    split
    · split <;> simp
    · simp

/-- The same for a subroutine. -/
theorem find?_gosubs_declare (script : String) (d : Declarations) (index : Nat) (c : Command)
    (key : String) :
    (d.declare script index c).gosubs.find? key =
      (d.gosubs.find? key).or (if c.gosubKey? == some key then some index else none) := by
  unfold declare Command.gosubKey? Command.isLabel
  cases c.label? with
  | some name => simp
  | none =>
    dsimp only
    split
    · next hstart =>
      cases c.tokens[1]? with
      | none => simp
      | some name => simpa [hstart] using find?_enter_eq d.gosubs (labelKey name) key index
    · next hstart => simp [hstart]

/-- What is entered command by command, unless it is there, is found at the first command that
enters it. -/
theorem find?_declareAll {map : Declarations → LabelMap} {keyOf : Command → Option String}
    {script key : String} (hstep : ∀ d index c, (map (declare script d index c)).find? key =
      ((map d).find? key).or (if keyOf c == some key then some index else none)) (d : Declarations)
    (index : Nat) (cs : List Command) : (map (declareAll script d index cs)).find? key =
      ((map d).find? key).or ((cs.findIdx? fun c => keyOf c == some key).map (· + index)) := by
  induction cs generalizing d index with
  | nil => simp [declareAll]
  | cons c cs ih =>
    rw [declareAll, ih, hstep, Option.or_assoc, List.findIdx?_cons]
    congr 1
    split
    · simp
    · simp [Function.comp_def, Nat.add_assoc, Nat.add_comm 1 index]

/-- **A key leads to the first label entered under it.** -/
theorem find?_gotos (script : String) (commands : List Command) (key : String) :
    (Declarations.of script commands).gotos.find? key =
      commands.findIdx? fun c => c.labelKey? == some key := by
  refine (find?_declareAll (fun d index c => find?_gotos_declare script d index c key)
    {} 0 commands).trans ?_
  simp

/-- **A key leads to the first subroutine entered under it.** -/
theorem find?_gosubs (script : String) (commands : List Command) (key : String) :
    (Declarations.of script commands).gosubs.find? key =
      commands.findIdx? fun c => c.gosubKey? == some key := by
  refine (find?_declareAll (fun d index c => find?_gosubs_declare script d index c key)
    {} 0 commands).trans ?_
  simp

end Declarations

end StepScript
