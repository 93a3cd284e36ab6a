import Mathlib.Data.List.TakeDrop
import StepScript.Script.Basic

/-!
# Proofs/Script/Extent — how far the positions of a script reach

A script is no longer than its text: every line number is at most the number of characters
(`Script.line_le`), and every label and subroutine is declared by a command of the script
(`Script.declared`). The first holds in the JSON dialect because a reader never gives back more
characters than it was given (`Json.Leaves`), and an array spends one on each of its items.
-/

theorem List.length_span_snd_le {α : Type} (p : α → Bool) (as : List α) :
    (as.span p).2.length ≤ as.length := by
  rw [List.span_eq_takeWhile_dropWhile]
  exact (List.dropWhile_sublist _).length_le

namespace StepScript

/-! ## Readers of JSON use up characters -/

namespace Json

variable {α : Type}

/-- A reading leaves at most `n` characters. -/
def Leaves (n : Nat) (r : Reading α) : Prop := ∀ v rest, r = .ok (v, rest) → rest.length ≤ n

theorem Leaves.mono {m n : Nat} {r : Reading α} (h : Leaves m r) (hmn : m ≤ n) : Leaves n r :=
  fun v rest hr => Nat.le_trans (h v rest hr) hmn

theorem leaves_error {n : Nat} (rest : List Char) : Leaves n (.error rest : Reading α) := by
  rintro v rest ⟨⟩

theorem leaves_ok {n : Nat} {v : α} {rest : List Char} (h : rest.length ≤ n) :
    Leaves n (.ok (v, rest)) := by
  rintro w rest ⟨⟩
  exact h

/-- Skipping blanks adds no characters; nor does any reader below. -/
theorem length_skipBlanks (cs : List Char) : (skipBlanks cs).length ≤ cs.length :=
  (List.dropWhile_sublist _).length_le

theorem leaves_readRest (value : α) (ks cs : List Char) :
    Leaves cs.length (readRest value ks cs) := by
  fun_induction readRest value ks cs with
  | case1 cs => exact leaves_ok (Nat.le_refl _)
  | case2 => exact leaves_error _
  | case3 k ks cs ih => exact ih.mono (by simp)
  | case4 => exact leaves_error _

theorem leaves_assemble (negative : Bool) (significand : Nat) (exponent : Int) (rest : List Char) :
    Leaves rest.length (assemble negative significand exponent rest) := by
  unfold assemble
  split
  · exact leaves_ok (Nat.le_refl _)
  · exact leaves_error _

theorem leaves_readExponent (negative : Bool) (significand : Nat) (start : Int) (cs : List Char) :
    Leaves cs.length (readExponent negative significand start cs) := by
  unfold readExponent
  split
  · next down ds heq =>
    have hds : ds.length ≤ cs.length := by split at heq <;> cases heq <;> simp
    cases ds with
    | nil => exact leaves_error _
    | cons c rest =>
      have hspan := List.length_span_snd_le Char.isDigit rest
      simp only [List.length_cons] at hds
      simp only
      split
      · split
        · split
          · exact leaves_error _
          · exact leaves_ok (by omega)
        · exact (leaves_assemble _ _ _ _).mono (by omega)
      · exact leaves_error _

theorem leaves_finishFloat (negative : Bool) (significand : Nat) (exponent : Int) (cs : List Char) :
    Leaves cs.length (finishFloat negative significand exponent cs) := by
  unfold finishFloat
  split
  · exact (leaves_readExponent _ _ _ _).mono (by simp)
  · exact (leaves_readExponent _ _ _ _).mono (by simp)
  · exact leaves_assemble _ _ _ _

theorem leaves_readDecimals (negative : Bool) (significand : Nat) (before : Int) (cs : List Char) :
    Leaves cs.length (readDecimals negative significand before cs) := by
  have hspan := List.length_span_snd_le Char.isDigit cs
  simp only [readDecimals]
  split
  · exact leaves_error _
  · exact (leaves_finishFloat _ _ _ _).mono hspan

theorem leaves_finishNumber (negative : Bool) (significand omitted : Nat) (cs : List Char) :
    Leaves cs.length (finishNumber negative significand omitted cs) := by
  unfold finishNumber
  split
  · exact (leaves_readDecimals _ _ _ _).mono (by simp)
  · exact (leaves_readExponent _ _ _ _).mono (by simp)
  · exact (leaves_readExponent _ _ _ _).mono (by simp)
  · split
    · exact leaves_ok (Nat.le_refl _)
    · exact leaves_assemble _ _ _ _

/-- A number leaves no more characters than there were. -/
theorem leaves_readNumber (negative : Bool) (cs : List Char) :
    Leaves cs.length (readNumber negative cs) := by
  cases cs with
  | nil => exact leaves_error _
  | cons c cs =>
    have hspan := List.length_span_snd_le Char.isDigit cs
    simp only [readNumber]
    split
    · split
      · split
        · exact leaves_error _
        · exact (leaves_finishNumber _ _ _ _).mono (by simp)
      · exact (leaves_finishNumber _ _ _ _).mono (by simp)
    · split
      · exact (leaves_finishNumber _ _ _ _).mono (by simp only [List.length_cons]; omega)
      · exact leaves_error _

theorem leaves_readUnit (cs : List Char) : Leaves cs.length (readUnit cs) := by
  simp only [readUnit]
  split
  · next v rest heq =>
    refine leaves_ok ?_
    split at heq
    · split at heq
      · cases heq
        simp only [List.length_cons]
        omega
      · cases heq
    · cases heq
  · exact leaves_error _

theorem leaves_readUnicode (cs : List Char) : Leaves cs.length (readUnicode cs) := by
  unfold readUnicode
  split
  · exact leaves_error _
  · next high rest heq =>
    have hrest := leaves_readUnit cs high rest heq
    split
    · exact leaves_error _
    · split
      · exact leaves_ok hrest
      · split
        · next tail =>
          split
          · exact leaves_error _
          · next low after hafter =>
            have := leaves_readUnit tail low after hafter
            simp only [List.length_cons] at hrest
            split
            · exact leaves_error _
            · exact leaves_ok (by omega)
        · exact leaves_error _
        · exact leaves_error _

theorem leaves_readEscape (cs : List Char) : Leaves cs.length (readEscape cs) := by
  cases cs with
  | nil => exact leaves_error _
  | cons c cs =>
    simp only [readEscape]
    repeat' split
    all_goals first
      | exact leaves_error _
      | exact leaves_ok (by simp)
      | exact (leaves_readUnicode cs).mono (by simp)

/-- Nor does a text, escapes included. -/
theorem leaves_readString (fuel read cs : List Char) :
    Leaves cs.length (readString fuel read cs) := by
  induction fuel generalizing read cs with
  | nil => exact leaves_error _
  | cons x fuel ih =>
    cases cs with
    | nil => exact leaves_error _
    | cons c cs =>
      simp only [readString]
      split
      · exact leaves_ok (by simp)
      · split
        · split
          · next d rest hrest =>
            have := leaves_readEscape cs d rest hrest
            exact (ih _ _).mono (by simp only [List.length_cons]; omega)
          · exact leaves_error _
        · split
          · exact leaves_error _
          · exact (ih _ _).mono (by simp)

/-! ## Arrays are no longer than their text -/

/-- If the document is an array, it has at most `n` items. -/
def Short (n : Nat) (v : Json) : Prop := ∀ items, v.items? = some items → items.length ≤ n

theorem Short.mono {m n : Nat} {v : Json} (h : v.Short m) (hmn : m ≤ n) : v.Short n :=
  fun items hv => Nat.le_trans (h items hv) hmn

/-- A reader of documents: it uses up characters, and what it reads is short. -/
def Thrifty (item : List Char → Reading Json) : Prop :=
  ∀ cs v rest, item cs = .ok (v, rest) → rest.length ≤ cs.length ∧ v.Short cs.length

/-- An array costs a character for each item. -/
theorem readItems_spec {item : List Char → Reading Json} (hitem : Thrifty item) {fuel : List Char}
    {read : List Json} {cs : List Char} {v : Json} {rest : List Char}
    (h : readItems item fuel read cs = .ok (v, rest)) :
    rest.length ≤ cs.length ∧ ∃ items, v = .array items ∧
      items.length ≤ read.length + fuel.length := by
  induction fuel generalizing read cs with
  | nil => cases h
  | cons x fuel ih =>
    have hblanks := length_skipBlanks cs
    -- one more item, read from `ds`
    have hnext : ∀ ds w after, ds.length ≤ cs.length → item ds = .ok (w, after) →
        readItems item fuel (w :: read) after = .ok (v, rest) → rest.length ≤ cs.length ∧
          ∃ items, v = .array items ∧ items.length ≤ read.length + (x :: fuel).length := by
      intro ds w after hds hafter hread
      obtain ⟨hle, items, hv, hlength⟩ := ih hread
      have := (hitem ds w after hafter).1
      refine ⟨by omega, items, hv, ?_⟩
      simp only [List.length_cons] at hlength ⊢
      omega
    simp only [readItems] at h
    split at h
    · cases h
    · next after heq =>
      cases h
      rw [heq] at hblanks
      exact ⟨by simp only [List.length_cons] at hblanks; omega, _, rfl, by simp⟩
    · next c tail hne heq =>
      rw [heq] at hblanks
      split at h
      · split at h
        · next hafter => exact hnext _ _ _ hblanks hafter h
        · cases h
      · split at h
        · have htail := length_skipBlanks tail
          simp only [List.length_cons] at hblanks
          split at h
          · cases h
          · cases h
          · split at h
            · next hafter => exact hnext _ _ _ (by omega) hafter h
            · cases h
        · cases h

/-- A member leaves no more characters than there were, and its value has no more items than
that. -/
theorem readMember_spec {item : List Char → Reading Json} (hitem : Thrifty item) {cs : List Char}
    {key : String} {v : Json} {rest : List Char} (h : readMember item cs = .ok ((key, v), rest)) :
    rest.length ≤ cs.length ∧ v.Short cs.length := by
  unfold readMember at h
  split at h
  · cases h
  · next name after hafter =>
    have hname := leaves_readString cs [] cs name after hafter
    have hblanks := length_skipBlanks after
    split at h
    · next tail htail =>
      rw [htail] at hblanks
      simp only [List.length_cons] at hblanks
      cases hread : item tail with
      | error cs => rw [hread] at h; cases h
      | ok p =>
        obtain ⟨w, left⟩ := p
        rw [hread] at h
        obtain ⟨hle, hshort⟩ := hitem tail w left hread
        cases h
        exact ⟨Nat.le_trans hle (by omega), hshort.mono (by omega)⟩
    · cases h

/-- The members of an object that was read are short. -/
def ShortMembers (n : Nat) (v : Json) : Prop :=
  ∀ members, v = .object members → ∀ e ∈ members, e.2.Short n

/-- The members of an object keep to the same bound, one after the other. -/
theorem readMembers_spec {item : List Char → Reading Json} (hitem : Thrifty item) {n : Nat}
    {fuel : List Char} {first : Bool} {read : List (String × Json)} {cs : List Char} {v : Json}
    {rest : List Char} (hcs : cs.length ≤ n) (hmembers : ∀ e ∈ read, e.2.Short n)
    (h : readMembers item fuel first read cs = .ok (v, rest)) :
    rest.length ≤ n ∧ v.items? = none ∧ v.ShortMembers n := by
  induction fuel generalizing first read cs with
  | nil => cases h
  | cons x fuel ih =>
    have hblanks := length_skipBlanks cs
    have hnext : ∀ ds key w after, ds.length ≤ n → readMember item ds = .ok ((key, w), after) →
        readMembers item fuel false (Assoc.put compare key w read) after = .ok (v, rest) →
        rest.length ≤ n ∧ v.items? = none ∧ v.ShortMembers n := by
      intro ds key w after hds hafter hread
      obtain ⟨hle, hshort⟩ := readMember_spec hitem hafter
      refine ih (by omega) (fun e he => ?_) hread
      rcases Assoc.mem_put he with rfl | he
      · exact hshort.mono hds
      · exact hmembers e he
    simp only [readMembers] at h
    split at h
    · cases h
    · next after heq =>
      cases h
      rw [heq] at hblanks
      simp only [List.length_cons] at hblanks
      refine ⟨by omega, rfl, ?_⟩
      rintro members ⟨⟩
      exact hmembers
    · next c tail hne heq =>
      rw [heq] at hblanks
      simp only [List.length_cons] at hblanks
      have htail := length_skipBlanks tail
      split at h
      · split at h
        · split at h
          · next hmember => exact hnext _ _ _ _ (by omega) hmember h
          · cases h
        · cases h
      · split at h
        · split at h
          · cases h
          · next after hafter =>
            rw [hafter] at htail
            simp only [List.length_cons] at htail
            split at h
            · next hmember => exact hnext _ _ _ _ (by omega) hmember h
            · cases h
          · cases h
        · cases h

/-- Neither an array nor an object. -/
def isPlain : Json → Bool
  | .array _ | .object _ => false
  | _ => true

/-- A value that is no array and no object has no items at all. -/
theorem short_of_isPlain {v : Json} (h : v.isPlain = true) (n : Nat) :
    v.Short n ∧ v.ShortMembers n := by
  refine ⟨fun items hitems => ?_, ?_⟩
  · cases v with
    | array _ => cases h
    | _ => cases hitems
  · rintro members rfl
    cases h

theorem Leaves.plain {n : Nat} {r : Reading α} (h : Leaves n r) {f : α → Json}
    (hf : ∀ a, (f a).isPlain = true) {v : Json} {rest : List Char}
    (hr : (r.map fun p => (f p.1, p.2)) = .ok (v, rest)) :
    rest.length ≤ n ∧ v.Short n ∧ v.ShortMembers n := by
  cases r with
  | error cs => cases hr
  | ok p =>
    obtain ⟨a, cs⟩ := p
    have hcs := h a cs rfl
    cases hr
    exact ⟨hcs, short_of_isPlain (hf a) n⟩

theorem readRest_spec {value : Json} {ks cs : List Char} {v : Json} {rest : List Char}
    (hvalue : value.isPlain = true) (h : readRest value ks cs = .ok (v, rest)) :
    rest.length ≤ cs.length ∧ v.Short cs.length ∧ v.ShortMembers cs.length := by
  have hv : v = value := by
    fun_induction readRest value ks cs with
    | case1 => exact (Prod.mk.inj (Except.ok.inj h)).1.symm
    | case2 => cases h
    | case3 k ks cs ih => exact ih h
    | case4 => cases h
  subst hv
  exact ⟨leaves_readRest _ _ _ _ _ h, short_of_isPlain hvalue _⟩

/-- **What is read is no longer than its text**: the items of an array, and those of each array that
is a member of an object. -/
theorem readValue_spec {depth : Nat} {cs : List Char} {v : Json} {rest : List Char}
    (h : readValue depth cs = .ok (v, rest)) :
    rest.length ≤ cs.length ∧ v.Short cs.length ∧ v.ShortMembers cs.length := by
  induction depth generalizing cs v rest with
  | zero => cases h
  | succ depth ih =>
    have hitem : Thrifty (readValue depth) := fun ds w after hds => ⟨(ih hds).1, (ih hds).2.1⟩
    have hblanks := length_skipBlanks cs
    simp only [readValue] at h
    split at h
    · cases h
    · next c tail heq =>
      rw [heq] at hblanks
      simp only [List.length_cons] at hblanks
      have hgrow : ∀ {n : Nat}, n ≤ tail.length + 1 →
          (rest.length ≤ n ∧ v.Short n ∧ v.ShortMembers n) →
          rest.length ≤ cs.length ∧ v.Short cs.length ∧ v.ShortMembers cs.length := by
        rintro n hn ⟨hrest, hshort, hmembers⟩
        exact ⟨by omega, hshort.mono (by omega), fun members hm e he =>
          (hmembers members hm e he).mono (by omega)⟩
      split at h
      · exact hgrow (by omega) (readRest_spec rfl h)
      split at h
      · exact hgrow (by omega) (readRest_spec rfl h)
      split at h
      · exact hgrow (by omega) (readRest_spec rfl h)
      split at h
      · exact hgrow (by omega) ((leaves_readNumber _ _).plain (fun _ => rfl) h)
      split at h
      · exact hgrow (by simp) ((leaves_readNumber _ _).plain (fun _ => rfl) h)
      split at h
      · exact hgrow (by omega) ((leaves_readString _ _ _).plain (fun _ => rfl) h)
      split at h
      · split at h
        · cases h
        · obtain ⟨hrest, items, rfl, hlength⟩ := readItems_spec hitem h
          refine hgrow (n := tail.length) (by omega) ⟨hrest, ?_, nofun⟩
          rintro items' ⟨⟩
          simpa using hlength
      split at h
      · split at h
        · cases h
        · obtain ⟨hrest, hitems, hmembers⟩ :=
            readMembers_spec hitem (Nat.le_refl tail.length) (by simp) h
          refine hgrow (n := tail.length) (by omega) ⟨hrest, fun items hv => ?_, hmembers⟩
          rw [hitems] at hv
          cases hv
      · cases h

end Json

/-! ## Line numbers -/

/-- Taking off the mark of byte order makes a text no longer. -/
theorem length_stripMark (text : String) : (stripMark text.toList).length ≤ text.length := by
  rw [← String.length_toList]
  cases text.toList with
  | nil => simp [stripMark]
  | cons c cs =>
    rw [stripMark]
    split <;> simp

/-- The numbers of the commands are numbers of entries, in their order. -/
theorem entryCommands_lines {script : String} {number : Nat} {entries : List Json}
    {commands : List Command} (h : entryCommands script number entries = .ok commands) :
    (commands.map Command.line).Sublist (List.range' number entries.length) := by
  induction entries generalizing number commands with
  | nil =>
    cases h
    exact .slnil
  | cons entry entries ih =>
    rw [entryCommands] at h
    rw [List.length_cons, List.range'_succ]
    split at h
    · cases h
    · split at h
      · cases h
      · next tail htail =>
        split at h <;> cases h
        · exact (ih htail).cons _
        · exact (ih htail).cons_cons _

/-- The commands of a text are those of the entries of its document. -/
theorem readStructured_eq_ok {script text : String} {commands : List Command}
    (h : readStructured script text = .ok commands) :
    ∃ document entries, Json.read (String.ofList (stripMark text.toList)) = .ok document ∧
      (document.member? commandsKey).bind Json.items? = some entries ∧
      entryCommands script 1 entries = .ok commands := by
  unfold readStructured at h
  split at h
  · cases h
  · next document hdocument =>
    unfold documentCommands at h
    split at h
    · cases h
    · next entries hentries => exact ⟨document, entries, hdocument, hentries, h⟩

/-- **The numbers of a document's commands** are at most the length of its text. -/
theorem readStructured_line_le {script text : String} {commands : List Command}
    (h : readStructured script text = .ok commands) : ∀ c ∈ commands, c.line ≤ text.length := by
  have hmark := length_stripMark text
  obtain ⟨document, entries, hdocument, hentries, hcommands⟩ := readStructured_eq_ok h
  obtain ⟨member, hmember, hitems⟩ := Option.bind_eq_some_iff.1 hentries
  simp only [Json.read] at hdocument
  split at hdocument
  · cases hdocument
  · next v rest hread =>
    obtain ⟨-, -, hshort⟩ := Json.readValue_spec hread
    have hv : v = document := by
      split at hdocument
      · exact Except.ok.inj hdocument
      · cases hdocument
    subst hv
    cases v with
    | object members =>
      have hmem := Assoc.mem_of_lookup hmember
      have hlength := hshort members rfl (commandsKey, member) hmem entries hitems
      rw [String.toList_ofList] at hlength
      intro c hc
      have hline :=
        List.mem_range'_1.1 ((entryCommands_lines hcommands).subset (List.mem_map_of_mem hc))
      omega
    | _ => cases hmember

/-- A text has at most one line for each of its characters, and one more for what was read
before. -/
theorem length_linesFrom (read cs : List Char) :
    (linesFrom read cs).length ≤ cs.length + if read.isEmpty then 0 else 1 := by
  induction cs generalizing read with
  | nil =>
    rw [linesFrom]
    split <;> simp_all
  | cons c cs ih =>
    rw [linesFrom]
    split
    · have := ih []
      simp only [List.length_cons, List.isEmpty_nil, if_true] at this ⊢
      omega
    · have := ih (c :: read)
      simp only [List.length_cons, List.isEmpty_cons, Bool.false_eq_true, if_false] at this ⊢
      split <;> omega

/-- The numbers of the commands are numbers of lines, in their order. -/
theorem commandsFrom_lines (number : Nat) (lines : List String) :
    ((commandsFrom number lines).map Command.line).Sublist (List.range' number lines.length) := by
  induction lines generalizing number with
  | nil => exact .slnil
  | cons line lines ih =>
    rw [commandsFrom, List.length_cons, List.range'_succ]
    split
    · exact (ih _).cons _
    · exact (ih _).cons_cons _

/-- **The numbers of a text's lines** are at most its length. -/
theorem readLines_line_le (text : String) : ∀ c ∈ readLines text, c.line ≤ text.length := by
  intro c hc
  have hline := List.mem_range'_1.1
    ((commandsFrom_lines 1 (physicalLines text)).subset (List.mem_map_of_mem hc))
  have hlines := length_linesFrom [] (stripMark text.toList)
  have hmark := length_stripMark text
  simp only [physicalLines, List.length_map, List.isEmpty_nil, if_true] at hline hlines
  omega

/-! ## Declarations -/

/-- **Every label and subroutine is declared by a command**: the one at the index it is kept
with. -/
structure Declared (commands : List Command) (gotos gosubs : LabelMap) : Prop where
  label : ∀ key index, gotos.find? key = some index →
    ∃ c name, commands[index]? = some c ∧ c.label? = some name ∧ labelKey name = key
  subroutine : ∀ key index, gosubs.find? key = some index →
    ∃ c, commands[index]? = some c ∧ c.startsWith beginsub = true

namespace Declarations

/-- A key stays with the index that it was entered with first. -/
theorem find?_enter_eq (m : LabelMap) (key k : String) (index : Nat) :
    (enter m key index).find? k =
      (m.find? k).or (if some key == some k then some index else none) := by
  unfold enter
  split
  · next hin =>
    by_cases hk : key = k
    · subst hk
      rw [Option.or_of_isSome hin]
    · simp [hk]
  · next hout =>
    rw [Assoc.find?_insert]
    by_cases hk : k = key
    · subst hk
      rw [if_pos rfl, Option.not_isSome_iff_eq_none.1 hout]
      simp
    · simp [hk, Ne.symm hk]

/-- A name that is found was entered just now or was there before. -/
theorem find?_enter {m : LabelMap} {key k : String} {index i : Nat}
    (h : (enter m key index).find? k = some i) : (k = key ∧ i = index) ∨ m.find? k = some i := by
  rw [find?_enter_eq, Option.or_eq_some_iff] at h
  obtain h | ⟨-, h⟩ := h
  · exact .inr h
  · obtain ⟨hk, hi⟩ := Option.ite_none_right_eq_some.1 h
    exact .inl ⟨(Option.some.inj (beq_iff_eq.1 hk)).symm, (Option.some.inj hi).symm⟩

theorem declared_declare {commands : List Command} {script : String} {d : Declarations}
    {index : Nat} {c : Command} (hc : commands[index]? = some c)
    (hd : Declared commands d.gotos d.gosubs) :
    Declared commands (d.declare script index c).gotos (d.declare script index c).gosubs := by
  simp only [declare]
  split
  · next name hname =>
    refine ⟨fun k i hk => ?_, hd.subroutine⟩
    rcases find?_enter hk with ⟨rfl, rfl⟩ | hk
    · exact ⟨c, name, hc, hname, rfl⟩
    · exact hd.label k i hk
  · split
    · next hstart =>
      split
      · exact ⟨hd.label, hd.subroutine⟩
      · refine ⟨hd.label, fun k i hk => ?_⟩
        rcases find?_enter hk with ⟨rfl, rfl⟩ | hk
        · exact ⟨c, hc, hstart⟩
        · exact hd.subroutine k i hk
    · exact hd

/-- **Every name that is declared** leads to an index within the commands. -/
theorem declared_declareAll {commands : List Command} {script : String} {d : Declarations}
    {index : Nat} {cs : List Command} (hcs : commands.drop index = cs)
    (hd : Declared commands d.gotos d.gosubs) :
    Declared commands (declareAll script d index cs).gotos
      (declareAll script d index cs).gosubs := by
  induction cs generalizing d index with
  | nil => exact hd
  | cons c cs ih =>
    have hc : commands[index]? = some c := by
      rw [← List.head?_drop, hcs]
      rfl
    have htail : commands.drop (index + 1) = cs := by
      rw [← List.tail_drop, hcs]
      rfl
    exact ih htail (declared_declare hc hd)

/-- What is wrong with a declaration is no broken link. -/
theorem intact_declare {script : String} {d : Declarations} {index : Nat} {c : Command}
    (hd : ∀ w ∈ d.warnings, w.isIntegrity = false) :
    ∀ w ∈ (d.declare script index c).warnings, w.isIntegrity = false := by
  simp only [declare]
  split
  · refine List.forall_mem_append.2 ⟨hd, ?_⟩
    split
    · exact List.forall_mem_singleton.2 rfl
    · exact List.forall_mem_nil _
  · split
    · split
      · exact List.forall_mem_append.2 ⟨hd, List.forall_mem_singleton.2 rfl⟩
      · refine List.forall_mem_append.2 ⟨hd, ?_⟩
        split
        · exact List.forall_mem_singleton.2 rfl
        · exact List.forall_mem_nil _
    · exact hd

/-- Declaring names warns of names, never of broken links. -/
theorem intact_declareAll {script : String} {d : Declarations} {index : Nat} {cs : List Command}
    (hd : ∀ w ∈ d.warnings, w.isIntegrity = false) :
    ∀ w ∈ (declareAll script d index cs).warnings, w.isIntegrity = false := by
  induction cs generalizing d index with
  | nil => exact hd
  | cons c cs ih => exact ih (intact_declare hd)

end Declarations

namespace Script

/-- A script is made of the commands of its text. -/
theorem read_eq_ok {name : String} {dialect : Dialect} {text : String} {script : Script}
    {warnings : List Diagnostic} (h : read name dialect text = .ok (script, warnings)) :
    commandsOf name dialect text = .ok script.commands ∧ script.name = name ∧
      script.gotos = (Declarations.of name script.commands).gotos ∧
      script.gosubs = (Declarations.of name script.commands).gosubs ∧
      warnings = (Declarations.of name script.commands).warnings := by
  unfold read at h
  split at h
  · cases h
  · next commands hcommands =>
    split at h
    · cases h
      exact ⟨hcommands, rfl, rfl, rfl, rfl⟩
    · cases h

/-- **A line number is at most the length of the text.** -/
theorem line_le {name : String} {dialect : Dialect} {text : String} {script : Script}
    {warnings : List Diagnostic} (h : read name dialect text = .ok (script, warnings)) :
    ∀ c ∈ script.commands, c.line ≤ text.length := by
  have hcommands := (read_eq_ok h).1
  cases dialect with
  | line =>
    rw [← Except.ok.inj hcommands]
    exact readLines_line_le text
  | json => exact readStructured_line_le hcommands

/-- **Labels and subroutines are declared by commands of the script.** -/
theorem declared {name : String} {dialect : Dialect} {text : String} {script : Script}
    {warnings : List Diagnostic} (h : read name dialect text = .ok (script, warnings)) :
    Declared script.commands script.gotos script.gosubs := by
  obtain ⟨-, -, hgotos, hgosubs, -⟩ := read_eq_ok h
  rw [hgotos, hgosubs]
  exact Declarations.declared_declareAll rfl ⟨nofun, nofun⟩

/-- **Reading a script** meets no broken link. -/
theorem intact_warnings {name : String} {dialect : Dialect} {text : String} {script : Script}
    {warnings : List Diagnostic} (h : read name dialect text = .ok (script, warnings)) :
    ∀ w ∈ warnings, w.isIntegrity = false := by
  obtain ⟨-, -, -, -, hwarnings⟩ := read_eq_ok h
  rw [hwarnings]
  exact Declarations.intact_declareAll (List.forall_mem_nil _)

end Script

end StepScript
