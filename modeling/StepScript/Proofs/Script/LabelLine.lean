import Mathlib.Data.List.DropRight
import Mathlib.Data.List.Forall2
import StepScript.Proofs.Script.Lexeme

/-!
# Proofs/Script/LabelLine — label lines are lines of one lexeme

The line dialect looks for a label before it splits a line into tokens. A line that it finds to be a
label is a line of one lexeme, a span in brackets, and the tokens of such a line are that span; so
nothing but the white space next to the brackets is lost. Whoever reads a text by tokens alone gets
commands that look the same in all that a script is asked about, and so the same labels and
subroutines.

* `labelLine?_eq_some_iff` — which lines are labels, as a grammar.
* `tokenizedLines` — a text read by tokens alone.
* `readLines_as_tokenized` — the two readings agree, line by line.
-/

namespace StepScript

/-! ## Trimming -/

namespace Text

/-- A text without white space at either end stays as it is. -/
theorem trimChars_eq_self {cs : List Char} (hhead : ∀ c ∈ cs.head?, isSpace c = false)
    (hlast : ∀ c ∈ cs.getLast?, isSpace c = false) : trimChars cs = cs := by
  have hdrop : cs.dropWhile isSpace = cs := by
    cases cs with
    | nil => rfl
    | cons c cs => rw [List.dropWhile_cons, hhead c rfl, if_neg Bool.false_ne_true]
  have hrdrop : cs.rdropWhile isSpace = cs := by
    rw [List.rdropWhile_eq_self_iff]
    intro hne
    rw [hlast _ (List.getLast?_eq_some_getLast hne)]
    exact Bool.false_ne_true
  rw [trimChars, hdrop, ← List.rdropWhile, hrdrop]

/-- What is trimmed has no white space at either end. -/
theorem ends_trimChars (cs : List Char) : (∀ c ∈ (trimChars cs).head?, isSpace c = false) ∧
    ∀ c ∈ (trimChars cs).getLast?, isSpace c = false := by
  have hfirst : ∀ ds : List Char, ∀ c ∈ (ds.dropWhile isSpace).head?, isSpace c = false := by
    intro ds c hc
    have hnot := List.head?_dropWhile_not isSpace ds
    rw [hc] at hnot
    exact hnot
  refine ⟨fun c hc => hfirst cs c ?_, fun c hc => hfirst (cs.dropWhile isSpace).reverse c ?_⟩
  · -- the front of the trimmed text is the front of what is left after the leading white space
    obtain ⟨rest, hrest⟩ := List.rdropWhile_prefix isSpace (cs.dropWhile isSpace)
    rw [← hrest, List.head?_append, List.rdropWhile, ← trimChars, hc]
    rfl
  · rwa [trimChars, List.getLast?_reverse] at hc

@[simp] theorem trimChars_trimChars (cs : List Char) : trimChars (trimChars cs) = trimChars cs :=
  trimChars_eq_self (ends_trimChars cs).1 (ends_trimChars cs).2

end Text

/-! ## The grammar of label lines -/

/-- **A label on its line**: a span in brackets that holds no bracket and is not blank. White space
may stand around it, and a comment behind. -/
structure LabelLayout where
  indent : Gap := ⟨[], rfl⟩
  inner : List Char
  gap : Gap := ⟨[], rfl⟩
  comment : Option (List Char) := none
  plain : inner.all (fun c => c != '[' && c != ']') = true
  named : Text.trimChars inner ≠ []

namespace LabelLayout

variable (l : LabelLayout)

theorem closes : l.inner.contains ']' = false := by
  rw [List.contains_eq_mem, decide_eq_false_iff_not]
  intro hmem
  have hplain := List.all_eq_true.1 l.plain _ hmem
  simp at hplain

/-- The line of one lexeme that it is. -/
def layout : Layout where
  indent := l.indent
  parts := [(.bracketed l.inner l.closes, l.gap)]
  comment := l.comment
  spaced := .singleton _

/-- The name of the label. -/
def name : String := String.ofList (Text.trimChars l.inner)

/-- The text of a line with a label: what stands before the bracket, the name, and what may
follow. -/
theorem text_layout : l.layout.text =
    String.ofList (l.indent.1 ++
      '[' :: (l.inner ++ ']' :: (l.gap.1 ++ Layout.tail l.comment))) := by
  simp [Layout.text, layout, Layout.body, Lexeme.written]

end LabelLayout

/-- A line may end in white space and a comment. -/
theorem endsLine_iff {rest : List Char} :
    endsLine rest = true ↔ ∃ (gap : Gap)
      (comment : Option (List Char)), rest = gap.1 ++ Layout.tail comment := by
  constructor
  · intro h
    have hgap : (rest.takeWhile Text.isSpace).all Text.isSpace = true := List.all_takeWhile
    have hsplit := List.takeWhile_append_dropWhile (p := Text.isSpace) (l := rest)
    unfold endsLine at h
    split at h
    · next hnil =>
      rw [hnil] at hsplit
      exact ⟨⟨_, hgap⟩, none, hsplit.symm⟩
    · next c text hcons =>
      obtain rfl : c = ';' := of_decide_eq_true h
      rw [hcons] at hsplit
      exact ⟨⟨_, hgap⟩, some text, hsplit.symm⟩
  · rintro ⟨gap, comment, rfl⟩
    rw [endsLine, List.dropWhile_append_of_pos (List.all_eq_true.1 gap.2)]
    cases comment <;> rfl

/-- **Which lines are labels.** -/
theorem labelLine?_eq_some_iff {line name : String} :
    labelLine? line = some name ↔ ∃ l : LabelLayout, l.layout.text = line ∧ l.name = name := by
  constructor
  · intro h
    have hindent : (line.toList.takeWhile Text.isSpace).all Text.isSpace = true :=
      List.all_takeWhile
    have hline := List.takeWhile_append_dropWhile (p := Text.isSpace) (l := line.toList)
    unfold labelLine? at h
    split at h
    · next cs hopen =>
      split at h
      · next inner rest hspan =>
        rw [List.span_eq_takeWhile_dropWhile, Prod.mk.injEq] at hspan
        obtain ⟨hinner, hrest⟩ := hspan
        have hplain : inner.all (fun c => c != '[' && c != ']') = true :=
          hinner ▸ List.all_takeWhile
        have hcs := List.takeWhile_append_dropWhile (p := fun c => c != '[' && c != ']') (l := cs)
        rw [hinner, hrest] at hcs
        dsimp only at h
        split at h
        · next hends =>
          obtain ⟨hend, hnamed⟩ := Bool.and_eq_true_iff.1 hends
          obtain ⟨gap, comment, rfl⟩ := endsLine_iff.1 hend
          refine ⟨⟨⟨_, hindent⟩, inner, gap, comment, hplain, by simpa using hnamed⟩, ?_,
            Option.some.inj h⟩
          rw [LabelLayout.text_layout]
          dsimp only
          rw [hcs, ← hopen, hline, String.ofList_toList]
        · cases h
      · cases h
    · cases h
  · rintro ⟨l, rfl, rfl⟩
    have hopen : ∀ cs, ('[' :: cs).dropWhile Text.isSpace = '[' :: cs := fun _ => rfl
    have hplain := List.all_eq_true.1 l.plain
    have hends : endsLine (l.gap.1 ++ Layout.tail l.comment) = true := endsLine_iff.2 ⟨_, _, rfl⟩
    rw [labelLine?, l.text_layout, String.toList_ofList,
      List.dropWhile_append_of_pos (List.all_eq_true.1 l.indent.2), hopen]
    simp only [List.span_eq_takeWhile_dropWhile, List.takeWhile_append_of_pos hplain,
      List.dropWhile_append_of_pos hplain]
    simp [hends, l.named, LabelLayout.name]

/-! ## Commands that look the same -/

namespace Text

/-- Trimming twice is trimming once. -/
theorem trim_trim (s : String) : trim (trim s) = trim s := by
  rw [trim, toList_trim, trimChars_trimChars, ← trim]

end Text

/-- **The same tokens**, except that a label may have lost the white space next to its brackets. -/
inductive TrimsLabel : List String → List String → Prop where
  | same (tokens : List String) : TrimsLabel tokens tokens
  | label {inner : String} (hnamed : Text.trim inner ≠ "") :
    TrimsLabel ["[" ++ Text.trim inner ++ "]"] ["[" ++ inner ++ "]"]

/-- **The commands look the same** in all that a script is asked about. -/
structure Command.LooksLike (c d : Command) : Prop where
  line : c.line = d.line
  label : c.label? = d.label?
  runnable : c.isRunnable = d.isRunnable
  opens : c.startsWith beginsub = d.startsWith beginsub
  closes : c.startsWith endsub = d.startsWith endsub
  tokens : TrimsLabel c.tokens d.tokens

namespace Command

variable {c d : Command} {inner : String}

/-- A token in brackets is a label by what stands in them, trimmed. -/
theorem label?_bracketed (htokens : c.tokens = ["[" ++ inner ++ "]"])
    (hnamed : Text.trim inner ≠ "") :
    c.label? = some (Text.trim inner) := by
  have hne : Text.trimChars inner.toList ≠ [] := by
    rw [← Text.toList_trim]
    exact fun hnil => hnamed (String.toList_eq_nil_iff.1 hnil)
  rw [label?, htokens]
  simp [labelInner?, unbracket?, hne, Text.trim]

theorem startsWith_bracketed (htokens : c.tokens = ["[" ++ inner ++ "]"]) {keyword : String}
    (hkeyword : keyword.toList.head?.map Char.toLower ≠ some '[') :
    c.startsWith keyword = false := by
  rw [startsWith, htokens]
  refine Bool.eq_false_iff.2 fun hsame => hkeyword ?_
  rw [← Text.head_of_sameKeyword hsame]
  simp

/-- A label is not run. -/
theorem not_isRunnable_of_label {name : String} (h : c.label? = some name) :
    c.isRunnable = false := by
  unfold isRunnable
  split
  · rfl
  · rw [isLabel, h]
    rfl

/-- Commands whose tokens differ in the white space of a label look alike. -/
theorem looksLike_of_trims (hline : c.line = d.line) (htokens : TrimsLabel c.tokens d.tokens) :
    c.LooksLike d := by
  obtain ⟨number, tokens⟩ := c
  obtain ⟨number', tokens'⟩ := d
  obtain rfl : number = number' := hline
  cases htokens with
  | same => exact ⟨rfl, rfl, rfl, rfl, rfl, .same _⟩
  | @label inner hnamed =>
    have hlabel : (⟨number, ["[" ++ inner ++ "]"]⟩ : Command).label? = some (Text.trim inner) :=
      label?_bracketed rfl hnamed
    have hlabel' : (⟨number, ["[" ++ Text.trim inner ++ "]"]⟩ : Command).label? =
        some (Text.trim inner) :=
      (label?_bracketed rfl (by rwa [Text.trim_trim])).trans (by rw [Text.trim_trim])
    have hbegin : beginsub.toList.head?.map Char.toLower ≠ some '[' := by decide +kernel
    have hend : endsub.toList.head?.map Char.toLower ≠ some '[' := by decide +kernel
    refine ⟨rfl, hlabel'.trans hlabel.symm, ?_, ?_, ?_, .label hnamed⟩
    · rw [not_isRunnable_of_label hlabel', not_isRunnable_of_label hlabel]
    · rw [startsWith_bracketed rfl hbegin, startsWith_bracketed rfl hbegin]
    · rw [startsWith_bracketed rfl hend, startsWith_bracketed rfl hend]

end Command

/-- **What a line is read as**: its tokens, less the white space next to the brackets of a label. -/
theorem lineTokens_trims (line : String) : TrimsLabel (lineTokens line) (tokenize line) := by
  rw [lineTokens]
  cases hlabel : labelLine? line with
  | none => exact .same _
  | some name =>
    obtain ⟨l, rfl, rfl⟩ := labelLine?_eq_some_iff.1 hlabel
    have hnamed : Text.trim (String.ofList l.inner) ≠ "" := by
      rw [Text.trim, String.toList_ofList, Ne, ← String.toList_eq_nil_iff, String.toList_ofList]
      exact l.named
    have hvalues : l.layout.values = ["[" ++ String.ofList l.inner ++ "]"] := by
      simp [Layout.values, LabelLayout.layout, Lexeme.value, String.ofList_cons,
        String.ofList_append, String.append_assoc]
    rw [Layout.tokenize_eq_values, hvalues]
    simpa [Text.trim, LabelLayout.name] using TrimsLabel.label hnamed

/-! ## Whole texts -/

/-- The commands of lines whose tokens are read in a given way; lines without tokens give none. -/
def numberedLines (tokens : String → List String) (number : Nat) (lines : List String) :
    List Command :=
  (lines.zipIdx number).filterMap fun p => if tokens p.1 = [] then none else some ⟨p.2, tokens p.1⟩

/-- **A text read by tokens alone.** -/
def tokenizedLines (text : String) : List Command := numberedLines tokenize 1 (physicalLines text)

section

variable {tokens : String → List String} {number : Nat}

theorem numberedLines_cons (line : String) (lines : List String) :
    numberedLines tokens number (line :: lines) =
      if tokens line = [] then numberedLines tokens (number + 1) lines
      else ⟨number, tokens line⟩ :: numberedLines tokens (number + 1) lines := by
  rw [numberedLines, List.zipIdx_cons, List.filterMap_cons]
  by_cases htokens : tokens line = [] <;> simp [htokens, numberedLines]

/-- The commands of a text are its lines that have tokens, numbered. -/
theorem commandsFrom_eq_numberedLines (lines : List String) :
    commandsFrom number lines = numberedLines lineTokens number lines := by
  induction lines generalizing number with
  | nil => rfl
  | cons line lines ih =>
    rw [numberedLines_cons, commandsFrom, ih]
    cases lineTokens line <;> simp

/-- A numbered line is a line of the text with its number and its tokens. -/
theorem mem_numberedLines {lines : List String} {c : Command} :
    c ∈ numberedLines tokens number lines ↔ number ≤ c.line ∧
      ∃ line, lines[c.line - number]? = some line ∧ tokens line = c.tokens ∧ c.tokens ≠ [] := by
  simp only [numberedLines, List.mem_filterMap, Prod.exists,
    List.mk_mem_zipIdx_iff_le_and_getElem?_sub]
  constructor
  · rintro ⟨line, n, ⟨hle, hline⟩, hc⟩
    split at hc
    · cases hc
    · next hne =>
      cases hc
      exact ⟨hle, line, hline, rfl, hne⟩
  · rintro ⟨hle, line, hline, htokens, hne⟩
    exact ⟨line, c.line, ⟨hle, hline⟩, by rw [htokens, if_neg hne]⟩

/-- Commands are numbered in the order of their lines. -/
theorem numberedLines_increasing (lines : List String) :
    (numberedLines tokens number lines).Pairwise fun c d => c.line < d.line := by
  induction lines generalizing number with
  | nil => exact .nil
  | cons line lines ih =>
    rw [numberedLines_cons]
    split
    · exact ih
    · exact .cons (fun d hd => Nat.lt_of_succ_le (mem_numberedLines.1 hd).1) ih

end

theorem TrimsLabel.eq_nil_iff {tokens tokens' : List String} (h : TrimsLabel tokens tokens') :
    tokens = [] ↔ tokens' = [] := by
  cases h <;> simp

theorem TrimsLabel.second_eq {tokens tokens' : List String} (h : TrimsLabel tokens tokens') :
    tokens[1]? = tokens'[1]? := by
  cases h <;> rfl

/-- **Reading by tokens alone** gives commands that look like those of the text. -/
theorem commandsFrom_looksLike (number : Nat) (lines : List String) :
    List.Forall₂ Command.LooksLike (commandsFrom number lines)
      (numberedLines tokenize number lines) := by
  rw [commandsFrom_eq_numberedLines]
  induction lines generalizing number with
  | nil => exact .nil
  | cons line lines ih =>
    have htrims := lineTokens_trims line
    rw [numberedLines_cons, numberedLines_cons]
    by_cases hnil : tokenize line = []
    · rw [if_pos hnil, if_pos (htrims.eq_nil_iff.2 hnil)]
      exact ih (number + 1)
    · rw [if_neg hnil, if_neg (mt htrims.eq_nil_iff.1 hnil)]
      exact .cons (Command.looksLike_of_trims rfl htrims) (ih (number + 1))

namespace Declarations

/-- Commands that look the same declare the same. -/
theorem declare_congr {c d : Command} (h : c.LooksLike d) (script : String) (ds : Declarations)
    (index : Nat) :
    ds.declare script index c = ds.declare script index d := by
  unfold declare
  rw [h.line, h.label, h.opens, h.tokens.second_eq]

/-- Commands that look alike declare the same names. -/
theorem declareAll_congr {cs cs' : List Command} (h : List.Forall₂ Command.LooksLike cs cs')
    (script : String) (ds : Declarations) (index : Nat) :
    declareAll script ds index cs = declareAll script ds index cs' := by
  induction h generalizing ds index with
  | nil => rfl
  | cons hc _ ih => rw [declareAll, declareAll, declare_congr hc, ih]

end Declarations

/-- **Looking for labels first changes nothing that a script is asked about.** The commands of a
text look like those that are read by tokens alone, one by one; so they declare the same labels and
subroutines, with the same warnings. Their line numbers increase, and each command comes from the
physical line of its number. -/
theorem readLines_as_tokenized (script text : String) :
    List.Forall₂ Command.LooksLike (readLines text) (tokenizedLines text) ∧
      Declarations.of script (readLines text) = Declarations.of script (tokenizedLines text) ∧
      (readLines text).Pairwise (fun c d => c.line < d.line) ∧
      ∀ c ∈ readLines text, 1 ≤ c.line ∧ ∃ line, (physicalLines text)[c.line - 1]? = some line ∧
        TrimsLabel c.tokens (tokenize line) := by
  have halike : List.Forall₂ Command.LooksLike (readLines text) (tokenizedLines text) :=
    commandsFrom_looksLike 1 (physicalLines text)
  refine ⟨halike, Declarations.declareAll_congr halike script {} 0, ?_, fun c hc => ?_⟩
  · rw [readLines, commandsFrom_eq_numberedLines]
    exact numberedLines_increasing _
  · rw [readLines, commandsFrom_eq_numberedLines, mem_numberedLines] at hc
    obtain ⟨hle, line, hline, htokens, -⟩ := hc
    exact ⟨hle, line, hline, htokens ▸ lineTokens_trims line⟩

/-- The second command of a text with a blank line is the label of its third line. -/
theorem spacedLabel_as_tokenized :
    { line := 3, tokens := ["[a;b]"] } ∈ readLines "say hi\n\n [ a;b ] ; c" ∧
      ∃ line, (physicalLines "say hi\n\n [ a;b ] ; c")[2]? = some line ∧
        TrimsLabel ["[a;b]"] (tokenize line) := by
  have hmem : { line := 3, tokens := ["[a;b]"] } ∈ readLines "say hi\n\n [ a;b ] ; c" := by
    decide +kernel
  obtain ⟨-, -, -, hlines⟩ := readLines_as_tokenized "main" "say hi\n\n [ a;b ] ; c"
  exact ⟨hmem, (hlines _ hmem).2⟩

/-- Label lines lose white space, and only theirs: a bracket inside, a blank name, text behind and
quotes make a line like any other. -/
example : (readLines "[ a;b ] ; c\n[x[y]\n[ ]\n[a] b\n\"[ q ]\"").map Command.tokens =
    [["[a;b]"], ["[x[y]"], ["[ ]"], ["[a]", "b"], ["[ q ]"]] := by
  decide +kernel

end StepScript
