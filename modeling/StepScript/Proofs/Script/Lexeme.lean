import Mathlib.Data.List.Chain
import StepScript.Proofs.Script.Dialects

/-!
# Proofs/Script/Lexeme — the grammar of a line

A line is a row of lexemes with white space around them, and a comment after them. A lexeme is a
span in quotes, a span in brackets, or a word. White space may be left out wherever two lexemes do
not run into each other.

* `Lexeme`, `Layout` — lexemes, and the ways to lay them out on a line. Both carry what makes them
  well formed.
* `Lexeme.scan_written` — a scan reads one lexeme and goes on after it.
* `Layout.tokenize_text` — the tokens of a line are the values of its lexemes.
-/

namespace StepScript

/-! ## Lexemes -/

/-- White space, possibly none. -/
abbrev Gap := { cs : List Char // cs.all Text.isSpace = true }

/-- Whether a character may stand in a word. -/
def isWordChar (c : Char) : Bool := !Text.isSpace c && c != ';'

/-- **A lexeme**: any text in quotes, a text without closing bracket in brackets, or a word that
does not begin like either of them. -/
inductive Lexeme where
  | quoted (text : List Char)
  | bracketed (text : List Char) (closes : text.contains ']' = false)
  | word (first : Char) (more : List Char) (plain : (first :: more).all isWordChar = true)
    (opens : first ≠ '"' ∧ first ≠ '[')

namespace Lexeme

/-- The lexeme as it stands on the line. A quote in a quoted text is doubled. -/
def written : Lexeme → List Char
  | .quoted text => StepScript.quoted text
  | .bracketed text _ => '[' :: text ++ [']']
  | .word first more _ _ => first :: more

/-- **The value of a lexeme**: the text between the quotes, and all of a span in brackets or a
word. -/
def value : Lexeme → List Char
  | .quoted text => text
  | .bracketed text _ => '[' :: text ++ [']']
  | .word first more _ _ => first :: more

/-- The two lexemes run into each other without white space between them: a word goes on up to white
space, and two quotes in a row stand for one inside a span. -/
def runsInto : Lexeme → Lexeme → Bool
  | .word .., _ => true
  | .quoted _, .quoted _ => true
  | _, _ => false

/-- The lexeme ends where the rest begins. -/
def EndsAt (rest : List Char) : Lexeme → Prop
  | .quoted _ => rest.head? ≠ some '"'
  | .bracketed .. => True
  | .word .. => ∀ c, rest.head? = some c → isWordChar c = false

end Lexeme

/-- **A line of lexemes**: white space, the lexemes with the white space after each, and a
comment. -/
structure Layout where
  indent : Gap := ⟨[], rfl⟩
  parts : List (Lexeme × Gap)
  /-- The text after the semicolon. -/
  comment : Option (List Char) := none
  /-- Lexemes that run into each other are kept apart. -/
  spaced : parts.IsChain fun p q => p.1.runsInto q.1 = true → p.2.1 ≠ []

namespace Layout

/-- Lexemes with the white space after each. -/
def body (parts : List (Lexeme × Gap)) : List Char := parts.flatMap fun p => p.1.written ++ p.2.1

/-- The end of a line: a comment or nothing. -/
def tail : Option (List Char) → List Char
  | none => []
  | some text => ';' :: text

/-- **The line.** -/
def text (l : Layout) : String := String.ofList (l.indent.1 ++ (body l.parts ++ tail l.comment))

/-- The values of the lexemes, in order. -/
def values (l : Layout) : List String := l.parts.map fun p => String.ofList p.1.value

end Layout

/-! ## Scanning one lexeme -/

/-- White space before a token is passed over. -/
theorem scan_gap_append {cs : List Char} (h : cs.all Text.isSpace = true) (rest : List Char) :
    scan .gap (cs ++ rest) = scan .gap rest := by
  induction cs with
  | nil => rfl
  | cons c cs ih =>
    obtain ⟨hc, hcs⟩ := Bool.and_eq_true_iff.1 h
    rw [List.cons_append, scan, if_pos hc, ih hcs]

/-- In brackets everything is read up to the one that closes. -/
theorem scan_bracketed {text : List Char} (h : text.contains ']' = false) (read rest : List Char) :
    scan (.bracketed read) (text ++ ']' :: rest) =
      (read.reverse ++ text ++ [']']) :: scan .gap rest := by
  induction text generalizing read with
  | nil => simp [scan]
  | cons c text ih =>
    rw [List.contains_cons, Bool.or_eq_false_iff] at h
    have hc : c ≠ ']' := fun heq => by simp [heq] at h
    rw [List.cons_append, scan, if_neg hc, ih h.2]
    simp

/-- A word goes on up to white space, a semicolon or the end of the line. -/
theorem scan_word {more rest : List Char} (h : more.all isWordChar = true)
    (hrest : ∀ c, rest.head? = some c → isWordChar c = false) (read : List Char) :
    scan (.word read) (more ++ rest) = (read.reverse ++ more) :: scan .gap rest := by
  induction more generalizing read with
  | nil =>
    cases rest with
    | nil => simp [scan]
    | cons c rest =>
      have hends := hrest c rfl
      by_cases hspace : Text.isSpace c = true
      · simp [scan, hspace]
      · obtain rfl : c = ';' := by simpa [isWordChar, hspace] using hends
        simp [scan, hspace]
  | cons c more ih =>
    obtain ⟨hc, hmore⟩ := Bool.and_eq_true_iff.1 h
    obtain ⟨hspace, hcomment⟩ : Text.isSpace c = false ∧ c ≠ ';' := by simpa [isWordChar] using hc
    rw [List.cons_append, scan, if_neg (by simp [hspace]), if_neg hcomment, ih hmore]
    simp

/-- **A scan reads one lexeme** and goes on after it. -/
theorem Lexeme.scan_written (l : Lexeme) {rest : List Char} (h : l.EndsAt rest) :
    scan .gap (l.written ++ rest) = l.value :: scan .gap rest := by
  cases l with
  | quoted text => exact scan_quoted text rest h
  | bracketed text closes =>
    have hopen : ∀ cs, scan .gap ('[' :: cs) = scan (.bracketed ['[']) cs :=
      fun cs => by rw [scan]; rfl
    rw [written, List.cons_append, List.cons_append, List.append_assoc, List.singleton_append,
      hopen, scan_bracketed closes]
    rfl
  | word first more plain opens =>
    obtain ⟨hfirst, hmore⟩ := Bool.and_eq_true_iff.1 plain
    obtain ⟨hspace, hcomment⟩ : Text.isSpace first = false ∧ first ≠ ';' := by
      simpa [isWordChar] using hfirst
    rw [written, List.cons_append, scan, if_neg (by simp [hspace]), if_neg hcomment, if_neg opens.1,
      if_neg opens.2, scan_word hmore h]
    rfl

/-! ## Scanning a line -/

/-- Any lexeme ends where white space begins. -/
theorem Lexeme.endsAt_gap (l : Lexeme) {gap : Gap} (hgap : gap.1 ≠ []) (rest : List Char) :
    l.EndsAt (gap.1 ++ rest) := by
  obtain ⟨c, cs, hcs⟩ := List.exists_cons_of_ne_nil hgap
  have hspace : Text.isSpace c = true := List.all_eq_true.1 gap.2 c (by simp [hcs])
  rw [hcs]
  cases l with
  | quoted text =>
    rintro ⟨⟩
    exact absurd hspace (by decide)
  | bracketed text closes => trivial
  | word first more plain opens =>
    rintro d ⟨⟩
    simp [isWordChar, hspace]

/-- Any lexeme ends where the comment begins. -/
theorem Lexeme.endsAt_tail (l : Lexeme) (comment : Option (List Char)) :
    l.EndsAt (Layout.tail comment) := by
  cases l with
  | quoted text => cases comment <;> simp [EndsAt, Layout.tail]
  | bracketed text closes => trivial
  | word first more plain opens =>
    cases comment with
    | none => rintro c ⟨⟩
    | some text =>
      rintro c ⟨⟩
      rfl

/-- A lexeme ends where another begins that it does not run into. -/
theorem Lexeme.endsAt_written {l k : Lexeme} (h : l.runsInto k = false) (rest : List Char) :
    l.EndsAt (k.written ++ rest) := by
  cases l with
  | quoted text =>
    cases k with
    | quoted other => cases h
    | bracketed other closes => simp [EndsAt, written]
    | word first more plain opens => simpa [EndsAt, written] using opens.1
  | bracketed text closes => trivial
  | word first more plain opens => cases k <;> cases h

namespace Layout

/-- **A scan reads lexemes that are kept apart**, and stops at the comment. -/
theorem scan_body {parts : List (Lexeme × Gap)}
    (h : parts.IsChain fun p q => p.1.runsInto q.1 = true → p.2.1 ≠ [])
    (comment : Option (List Char)) :
    scan .gap (body parts ++ tail comment) = parts.map fun p => p.1.value := by
  induction parts with
  | nil => cases comment <;> rfl
  | cons p parts ih =>
    have hends : p.1.EndsAt (p.2.1 ++ (body parts ++ tail comment)) := by
      by_cases hgap : p.2.1 = []
      · rw [hgap, List.nil_append]
        cases parts with
        | nil => exact p.1.endsAt_tail comment
        | cons q parts =>
          have hrun : p.1.runsInto q.1 = false :=
            Bool.eq_false_iff.2 fun hrun => (List.isChain_cons_cons.1 h).1 hrun hgap
          rw [body, List.flatMap_cons, List.append_assoc, List.append_assoc]
          exact Lexeme.endsAt_written hrun _
      · exact p.1.endsAt_gap hgap _
    have hsplit : body (p :: parts) ++ tail comment =
        p.1.written ++ (p.2.1 ++ (body parts ++ tail comment)) := by
      rw [body, List.flatMap_cons, List.append_assoc, List.append_assoc, ← body]
    rw [hsplit, p.1.scan_written hends, scan_gap_append p.2.2, ih h.tail]
    rfl

/-- The tokens of a line are the values of its lexemes. -/
theorem tokenize_eq_values (l : Layout) : tokenize l.text = l.values := by
  rw [tokenize, text, String.toList_ofList, scan_gap_append l.indent.2,
    scan_body l.spaced, List.map_map]
  rfl

/-! ## Quoted lists -/

/-- Texts in quotes with white space between them. -/
def ofTexts (gap : Gap) : List String → List (Lexeme × Gap)
  | [] => []
  | [text] => [(.quoted text.toList, ⟨[], rfl⟩)]
  | text :: next :: texts => (.quoted text.toList, gap) :: ofTexts gap (next :: texts)

theorem body_ofTexts (gap : Gap) (texts : List String) :
    body (ofTexts gap texts) = gap.1.intercalate (texts.map fun text => quoted text.toList) := by
  fun_induction ofTexts gap texts with
  | case1 => rfl
  | case2 text => simp [body, Lexeme.written]
  | case3 text next texts ih =>
    rw [List.map_cons] at ih
    rw [List.map_cons, List.map_cons, List.intercalate_cons_cons, ← ih]
    simp [body, Lexeme.written]

/-- With a gap between them, no two tokens run into each other. -/
theorem spaced_ofTexts {gap : Gap} (hgap : gap.1 ≠ []) (texts : List String) :
    (ofTexts gap texts).IsChain fun p q => p.1.runsInto q.1 = true → p.2.1 ≠ [] := by
  fun_induction ofTexts gap texts with
  | case1 => exact .nil
  | case2 text => exact .singleton _
  | case3 text next texts ih =>
    cases texts with
    | nil => exact .cons_cons (fun _ => hgap) ih
    | cons other texts => exact .cons_cons (fun _ => hgap) ih

/-- The tokens that texts are laid out as have these texts for their values. -/
theorem values_ofTexts (gap : Gap) (texts : List String) :
    ((ofTexts gap texts).map fun p => String.ofList p.1.value) = texts := by
  fun_induction ofTexts gap texts with
  | case1 => rfl
  | case2 text => simp [Lexeme.value]
  | case3 text next texts ih =>
    rw [List.map_cons, ih]
    simp [Lexeme.value]

/-- **The tokens of a line are the values of its lexemes**, in order, however the lexemes are laid
out and whatever the comment says. So texts that are written in quotes with white space between them
are read back. -/
theorem tokenize_text (l : Layout) :
    tokenize l.text = l.values ∧
      ∀ (gap : Gap) (texts : List String), gap.1 ≠ [] →
        tokenize (String.ofList (gap.1.intercalate (texts.map fun text => quoted text.toList))) =
          texts := by
  refine ⟨l.tokenize_eq_values, fun gap texts hgap => ?_⟩
  have hread :=
    tokenize_eq_values { parts := ofTexts gap texts, spaced := spaced_ofTexts hgap texts }
  rw [values, values_ofTexts, text, body_ofTexts, tail, List.append_nil] at hread
  exact hread

/-- Lexemes that touch where they may, with quotes, brackets and semicolons inside them:
`say "a ""b"";"[x"y;]it"s[ok]` and a comment. -/
def crowded : Layout where
  indent := ⟨[' ', '\t'], rfl⟩
  parts := [(.word 's' ['a', 'y'] rfl (by decide), ⟨[' '], rfl⟩),
    (.quoted "a \"b\";".toList, ⟨[], rfl⟩), (.bracketed "x\"y;".toList rfl, ⟨[], rfl⟩),
    (.word 'i' "t\"s[ok]".toList rfl (by decide), ⟨[], rfl⟩)]
  comment := some "\"not [read".toList
  spaced := by decide

/-- The crowded line gives four tokens, and an empty text in quotes is a token too. -/
theorem tokenize_crowded : crowded.text = " \tsay \"a \"\"b\"\";\"[x\"y;]it\"s[ok];\"not [read" ∧
    tokenize crowded.text = ["say", "a \"b\";", "[x\"y;]", "it\"s[ok]"] ∧
    tokenize "\"\" \"\"\"\"" = ["", "\""] := by
  obtain ⟨hline, hquoted⟩ := crowded.tokenize_text
  refine ⟨by decide +kernel, hline.trans (by decide +kernel), ?_⟩
  exact hquoted ⟨[' '], rfl⟩ ["", "\""] (List.cons_ne_nil _ _)

end Layout

end StepScript
