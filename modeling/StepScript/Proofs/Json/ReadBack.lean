import Mathlib.Tactic.IntervalCases
import StepScript.Json.Reader

/-!
# Proofs/Json/ReadBack — compact text is read back

The compact text of a string is read back, and so is that of an array whose items are, and of an
object with one such member. A reader reads a text whatever comes after it (`Json.Reads`), so that
texts can be put side by side.

* `Json.reads_quote`, `Json.reads_array`, `Json.reads_object` — one for each construct.
* `Json.read_of_reads` — a text that is read as a value is read as a document.
-/

namespace StepScript.Json

/-! ## Strings -/

/-- A control character is written as its number, and the number reads back. -/
theorem readEscape_control (n : Nat) (hn : n < 0x20) (cs : List Char) : ∃ ds,
    escapeChar (Char.ofNat n) = '\\' :: ds ∧ readEscape (ds ++ cs) = .ok (Char.ofNat n, cs) := by
  interval_cases n <;> exact ⟨_, rfl, rfl⟩

/-- All other characters but the quote and the backslash stand for themselves. -/
theorem escapeChar_of_plain {c : Char} (hquote : c ≠ '"') (hslash : c ≠ '\\')
    (hcontrol : ¬ c.toNat < 0x20) :
    escapeChar c = [c] := by
  have hne : ∀ d : Char, d.toNat < 0x20 → c ≠ d := fun d hd heq => hcontrol (heq ▸ hd)
  rw [escapeChar, if_neg hquote, if_neg hslash, if_neg (hne _ (by decide)),
    if_neg (hne _ (by decide)), if_neg (hne _ (by decide)), if_neg (hne _ (by decide)),
    if_neg (hne _ (by decide)), if_neg hcontrol]

/-- **An escaped character is read back.** -/
theorem readString_escapeChar (f c : Char) (fuel read cs : List Char) :
    readString (f :: fuel) read (escapeChar c ++ cs) = readString fuel (c :: read) cs := by
  by_cases hcontrol : c.toNat < 0x20
  · obtain ⟨ds, hescape, hread⟩ := readEscape_control c.toNat hcontrol cs
    rw [Char.ofNat_toNat] at hescape hread
    rw [hescape, List.cons_append, readString]
    simp [hread]
  · by_cases hquote : c = '"'
    · subst hquote
      rfl
    · by_cases hslash : c = '\\'
      · subst hslash
        rfl
      · rw [escapeChar_of_plain hquote hslash hcontrol, List.singleton_append, readString,
          if_neg hquote, if_neg hslash, if_neg hcontrol]

/-- Escaping makes no text shorter. -/
theorem length_le_escaped (s : List Char) : s.length ≤ (s.flatMap escapeChar).length := by
  have hpos : ∀ c, 1 ≤ (escapeChar c).length := by
    intro c
    unfold escapeChar
    repeat' split
    all_goals simp
  induction s with
  | nil => exact Nat.le_refl 0
  | cons c s ih =>
    have hc := hpos c
    rw [List.flatMap_cons, List.length_append, List.length_cons]
    omega

/-- **An escaped text reads back**, up to the quote that ends it, with fuel for each character. -/
theorem readString_escaped (s rest fuel read : List Char) (hfuel : s.length < fuel.length) :
    readString fuel read (s.flatMap escapeChar ++ '"' :: rest) =
      .ok (String.ofList (read.reverse ++ s), rest) := by
  induction s generalizing fuel read with
  | nil =>
    obtain ⟨f, fuel, rfl⟩ := List.exists_cons_of_length_pos hfuel
    rw [List.flatMap_nil, List.nil_append, readString, if_pos rfl, List.append_nil]
  | cons c s ih =>
    obtain ⟨f, fuel, rfl⟩ := List.exists_cons_of_length_pos (Nat.zero_lt_of_lt hfuel)
    rw [List.flatMap_cons, List.append_assoc, readString_escapeChar,
      ih fuel _ (Nat.lt_of_succ_lt_succ hfuel)]
    simp

/-- The text of a string, without the quote that begins it, is its own fuel. -/
theorem readString_self (s : String) (rest : List Char) :
    readString (s.toList.flatMap escapeChar ++ '"' :: rest) []
      (s.toList.flatMap escapeChar ++ '"' :: rest) = .ok (s, rest) := by
  have hfuel : s.toList.length < (s.toList.flatMap escapeChar ++ '"' :: rest).length := by
    have hlength := length_le_escaped s.toList
    rw [List.length_append, List.length_cons]
    omega
  rw [readString_escaped _ _ _ _ hfuel, List.reverse_nil, List.nil_append, String.ofList_toList]

/-- **A reader reads a text**, whatever comes after it. The text does not begin as white space or
the end of an array does. -/
structure Reads (item : List Char → Reading Json) (text : List Char) (v : Json) : Prop where
  read : ∀ rest, item (text ++ rest) = .ok (v, rest)
  head : ∃ c cs, text = c :: cs ∧ isBlank c = false ∧ c ≠ ']'

theorem toList_quote (s : String) :
    (quote s).toList = '"' :: (s.toList.flatMap escapeChar ++ ['"']) := by
  simp [quote]

/-- **A string is read back** from its text. -/
theorem reads_quote (depth : Nat) (s : String) :
    Reads (readValue (depth + 1)) (quote s).toList (.string s) := by
  rw [toList_quote]
  refine ⟨fun rest => ?_, _, _, rfl, rfl, by decide⟩
  have hopen : ∀ cs, readValue (depth + 1) ('"' :: cs) =
      (readString cs [] cs).map fun r => (.string r.1, r.2) :=
    fun cs => rfl
  rw [List.cons_append, List.append_assoc, List.singleton_append, hopen, readString_self]
  rfl

/-! ## Arrays -/

section

variable {item : List Char → Reading Json} {text : List Char} {v : Json}

/-- The text of a value does not begin with a blank. -/
theorem Reads.skipBlanks (h : Reads item text v) (rest : List Char) :
    skipBlanks (text ++ rest) = text ++ rest := by
  obtain ⟨c, cs, rfl, hblank, -⟩ := h.head
  rw [List.cons_append, Json.skipBlanks, List.dropWhile_cons_of_neg (by simp [hblank])]

theorem readItems_first (h : Reads item text v) (f : Char) (fuel rest : List Char) :
    readItems item (f :: fuel) [] (text ++ rest) = readItems item fuel [v] rest := by
  have hskip := h.skipBlanks rest
  have hread := h.read rest
  obtain ⟨c, cs, rfl, -, hclose⟩ := h.head
  rw [List.cons_append] at hskip hread ⊢
  rw [readItems, hskip]
  dsimp only
  split
  · next heq => cases heq
  · next heq => exact absurd (List.cons.inj heq).1 hclose
  · next heq =>
    cases heq
    rw [List.isEmpty_nil, if_pos rfl, hread]

/-- An item after a comma is read and the rest goes on; the fuel goes down by one. -/
theorem readItems_next (h : Reads item text v) (f : Char) (fuel rest : List Char) {read : List Json}
    (hread : read ≠ []) :
    readItems item (f :: fuel) read (',' :: (text ++ rest)) =
      readItems item fuel (v :: read) rest := by
  have hcomma : ∀ cs, Json.skipBlanks (',' :: cs) = ',' :: cs := fun cs => rfl
  have hskip := h.skipBlanks rest
  have hitem := h.read rest
  have hempty : read.isEmpty = false := by simpa using hread
  obtain ⟨c, cs, rfl, -, hclose⟩ := h.head
  rw [List.cons_append] at hskip hitem ⊢
  rw [readItems, hcomma]
  dsimp only
  split
  · next heq => cases heq
  · next heq => exact absurd (List.cons.inj heq).1 (by decide)
  · next heq =>
    cases heq
    rw [hempty, if_neg Bool.false_ne_true, if_pos rfl, hskip]
    split
    · next heq => cases heq
    · next heq => exact absurd (List.cons.inj heq).1 hclose
    · rw [hitem]

theorem readItems_end (f : Char) (fuel : List Char) (read : List Json) (rest : List Char) :
    readItems item (f :: fuel) read (']' :: rest) = .ok (.array read.reverse, rest) := by
  have hclose : Json.skipBlanks (']' :: rest) = ']' :: rest := rfl
  rw [readItems, hclose]
  rfl

/-- After the first item, every item follows a comma. -/
theorem readItems_rest {items : List (List Char × Json)} (h : ∀ p ∈ items, Reads item p.1 p.2)
    (fuel : List Char) (hfuel : items.length < fuel.length) {read : List Json} (hread : read ≠ [])
    (rest : List Char) :
    readItems item fuel read (items.flatMap (fun p => ',' :: p.1) ++ ']' :: rest) =
      .ok (.array (read.reverse ++ items.map Prod.snd), rest) := by
  induction items generalizing fuel read with
  | nil =>
    obtain ⟨f, fuel, rfl⟩ := List.exists_cons_of_length_pos hfuel
    rw [List.flatMap_nil, List.nil_append, readItems_end, List.map_nil, List.append_nil]
  | cons p items ih =>
    obtain ⟨f, fuel, rfl⟩ := List.exists_cons_of_length_pos (Nat.zero_lt_of_lt hfuel)
    obtain ⟨hp, hitems⟩ := List.forall_mem_cons.1 h
    rw [List.flatMap_cons, List.append_assoc, List.cons_append, readItems_next hp f fuel _ hread,
      ih hitems fuel (Nat.lt_of_succ_lt_succ hfuel) (List.cons_ne_nil _ _)]
    simp

theorem intercalate_comma (p : List Char × Json) (items : List (List Char × Json)) :
    [','].intercalate ((p :: items).map Prod.fst) = p.1 ++ items.flatMap fun p => ',' :: p.1 := by
  induction items generalizing p with
  | nil => simp
  | cons q items ih =>
    rw [List.map_cons, List.map_cons, List.intercalate_cons_cons, ← List.map_cons, ih q]
    simp

/-- **The items of an array are read back** from their texts. -/
theorem readItems_intercalate {items : List (List Char × Json)}
    (h : ∀ p ∈ items, Reads item p.1 p.2) (fuel : List Char) (hfuel : items.length < fuel.length)
    (rest : List Char) :
    readItems item fuel [] ([','].intercalate (items.map Prod.fst) ++ ']' :: rest) =
      .ok (.array (items.map Prod.snd), rest) := by
  cases items with
  | nil =>
    obtain ⟨f, fuel, rfl⟩ := List.exists_cons_of_length_pos hfuel
    exact readItems_end f fuel [] rest
  | cons p items =>
    obtain ⟨f, fuel, rfl⟩ := List.exists_cons_of_length_pos (Nat.zero_lt_of_lt hfuel)
    obtain ⟨hp, hitems⟩ := List.forall_mem_cons.1 h
    rw [intercalate_comma, List.append_assoc, readItems_first hp,
      readItems_rest hitems fuel (Nat.lt_of_succ_lt_succ hfuel) (List.cons_ne_nil _ _)]
    rfl

/-- A list of items has a character for each, which is fuel enough. -/
theorem length_le_intercalate {texts : List (List Char)} (h : ∀ text ∈ texts, text ≠ []) :
    texts.length ≤ ([','].intercalate texts).length := by
  induction texts with
  | nil => exact Nat.le_refl 0
  | cons text texts ih =>
    obtain ⟨htext, htexts⟩ := List.forall_mem_cons.1 h
    have hpos := List.length_pos_iff.2 htext
    cases texts with
    | nil =>
      rw [List.intercalate_singleton]
      exact hpos
    | cons next texts =>
      have hrest := ih htexts
      rw [List.intercalate_cons_cons, List.length_append, List.length_append, List.length_cons]
      omega

end

theorem compactItems_eq (items : List Json) : compactItems items = items.map compact := by
  induction items with
  | nil => rfl
  | cons item items ih => rw [compactItems, ih, List.map_cons]

/-- **An array is read back** from its text if its items are. -/
theorem reads_array {depth : Nat} {items : List Json}
    (h : ∀ v ∈ items, Reads (readValue (depth + 1)) v.compact.toList v) :
    Reads (readValue (depth + 2)) (compact (.array items)).toList (.array items) := by
  have htext : (compact (.array items)).toList =
      '[' :: ([','].intercalate (items.map fun v => v.compact.toList) ++ [']']) := by
    rw [compact, compactItems_eq]
    simp [String.toList_intercalate, Function.comp_def]
  rw [htext]
  refine ⟨fun rest => ?_, _, _, rfl, rfl, by decide⟩
  have hpairs : ∀ p ∈ items.map fun v => (v.compact.toList, v),
      Reads (readValue (depth + 1)) p.1 p.2 :=
    List.forall_mem_map.2 h
  have hne : ∀ text ∈ items.map fun v => v.compact.toList, text ≠ [] := by
    refine List.forall_mem_map.2 fun v hv => ?_
    obtain ⟨c, cs, hcs, -⟩ := (h v hv).head
    rw [hcs]
    exact List.cons_ne_nil c cs
  have hlength := length_le_intercalate hne
  have hread := readItems_intercalate hpairs
    ([','].intercalate (items.map fun v => v.compact.toList) ++ ']' :: rest) (by
      rw [List.length_map] at hlength ⊢
      rw [List.length_append, List.length_cons]
      omega) rest
  simp only [List.map_map, Function.comp_def, List.map_id'] at hread
  have hopen : ∀ cs, readValue (depth + 2) ('[' :: cs) =
    readItems (readValue (depth + 1)) cs [] cs := fun cs => rfl
  rw [List.cons_append, List.append_assoc, List.singleton_append, hopen, hread]

/-! ## Objects -/

/-- A member reads back: its key up to the quote, a colon, and its value. -/
theorem readMember_of_reads {item : List Char → Reading Json} {text : List Char} {v : Json}
    (h : Reads item text v) (key : String) (rest : List Char) :
    readMember item (key.toList.flatMap escapeChar ++ '"' :: ':' :: (text ++ rest)) =
      .ok ((key, v), rest) := by
  have hcolon : ∀ cs, Json.skipBlanks (':' :: cs) = ':' :: cs := fun cs => rfl
  simp only [readMember, readString_self, hcolon, h.read]
  rfl

theorem readMembers_first {item : List Char → Reading Json} {cs rest : List Char} {key : String}
    {v : Json} (h : readMember item cs = .ok ((key, v), rest)) (f : Char) (fuel : List Char) :
    readMembers item (f :: fuel) true [] ('"' :: cs) =
      readMembers item fuel false [(key, v)] rest := by
  have hquote : skipBlanks ('"' :: cs) = '"' :: cs := rfl
  rw [readMembers, hquote]
  dsimp only
  split
  · next heq => cases heq
  · next heq => exact absurd (List.cons.inj heq).1 (by decide)
  · next heq =>
    cases heq
    rw [if_pos rfl, if_pos rfl, h]
    rfl

theorem readMembers_end {item : List Char → Reading Json} (f : Char) (fuel : List Char)
    (read : List (String × Json)) (rest : List Char) :
    readMembers item (f :: fuel) false read ('\x7d' :: rest) = .ok (.object read, rest) := by
  have hclose : skipBlanks ('\x7d' :: rest) = '\x7d' :: rest := rfl
  rw [readMembers, hclose]
  rfl

/-- **An object of one member is read back** from its text if the value of the member is. -/
theorem reads_object {depth : Nat} {v : Json} (h : Reads (readValue (depth + 1)) v.compact.toList v)
    (key : String) :
    Reads (readValue (depth + 2)) (compact (.object [(key, v)])).toList (.object [(key, v)]) := by
  have htext : (compact (.object [(key, v)])).toList =
      '\x7b' :: '"' :: (key.toList.flatMap escapeChar ++
        '"' :: ':' :: (v.compact.toList ++ ['\x7d'])) := by
    simp [compact, compactMembers, toList_quote]
  rw [htext]
  refine ⟨fun rest => ?_, _, _, rfl, rfl, by decide⟩
  have hopen : ∀ cs, readValue (depth + 2) ('\x7b' :: cs) =
      readMembers (readValue (depth + 1)) cs true [] cs :=
    fun cs => rfl
  have hmember := readMember_of_reads h key ('\x7d' :: rest)
  obtain ⟨f, fuel, hfuel⟩ : ∃ f fuel, key.toList.flatMap escapeChar ++
      '"' :: ':' :: (v.compact.toList ++ '\x7d' :: rest) = f :: fuel :=
      List.exists_cons_of_ne_nil (by simp)
  simp only [List.cons_append, List.append_assoc, List.nil_append, hopen]
  rw [readMembers_first hmember, hfuel, readMembers_end]

/-! ## Documents -/

/-- A document that a value reads back from is read as that value. -/
theorem read_of_reads {text : String} {v : Json}
    (h : Reads (readValue (maxDepth + 1)) text.toList v) :
    read text = .ok v := by
  have hread := h.read []
  rw [List.append_nil] at hread
  simp only [read, hread]
  rfl

/-- A document does not begin with a byte order mark. -/
theorem head_of_read {text : String} {v : Json} (h : read text = .ok v) :
    text.toList.head? ≠ some (Char.ofNat 0xFEFF) := by
  intro hhead
  obtain ⟨cs, hcs⟩ := List.head?_eq_some_iff.1 hhead
  have hfault : readValue (maxDepth + 1) (Char.ofNat 0xFEFF :: cs) = .error cs := rfl
  simp only [read, hcs, hfault] at h
  cases h

end StepScript.Json
