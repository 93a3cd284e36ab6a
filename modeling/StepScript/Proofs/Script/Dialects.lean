import Mathlib.Data.List.TakeDrop
import Mathlib.Data.List.TakeWhile
import StepScript.Proofs.Json.ReadBack
import StepScript.Script.Basic

/-!
# Proofs/Script/Dialects — the two dialects agree

A list of entries, each a command or a label, is written in either dialect: one physical line each,
with every token in quotes, or one array each. Both are read back as the same commands, so that the
scripts differ in nothing but the dialect they name.

* `Entry.line`, `Entry.json` — an entry in the two dialects; `Entry.commands` — what a list of them
  stands for.
* `Entry.read_compact_document` — the compact text of a document of entries is read back.
* `Script.read_alike` — both texts give the same script, or fail alike.
-/

namespace StepScript

/-! ## Entries -/

/-- **An entry of a script.** -/
inductive Entry where
  | command (tokens : List String)
  | label (name : String)
deriving DecidableEq

/-- A token in quotes, with every quote in it doubled. -/
def quoted (token : List Char) : List Char :=
  '"' :: (token.flatMap fun c => if c = '"' then ['"', '"'] else [c]) ++ ['"']

namespace Entry

/-- What the entry stands for. A label has no white space around its name. -/
def tokens : Entry → List String
  | .command tokens => tokens
  | .label name => ["[" ++ Text.trim name ++ "]"]

/-- The entry in the line dialect. -/
def line : Entry → List Char
  | .command tokens => [' '].intercalate (tokens.map fun token => quoted token.toList)
  | .label name => '[' :: name.toList ++ [']']

/-- The entry in the JSON dialect. -/
def json : Entry → Json
  | .command tokens => .array (tokens.map .string)
  | .label name => .array [.string labelMarker, .string name]

/-- **The entry can be written in either dialect**: it stays on its line, a label has a name, and no
command looks like a label entry. -/
def Plain : Entry → Prop
  | .command tokens => (∀ token ∈ tokens, '\n' ∉ token.toList) ∧
    ¬ (tokens.length = 2 ∧ tokens.head? = some labelMarker)
  | .label name => Text.isBlank name = false ∧ ∀ c ∈ ['[', ']', '\n'], c ∉ name.toList

instance (e : Entry) : Decidable e.Plain :=
  match e with
  | .command _ => inferInstanceAs (Decidable (_ ∧ _))
  | .label name =>
    @instDecidableAnd _ _ _ (List.decidableBAll (fun c => c ∉ name.toList) ['[', ']', '\n'])

/-- The commands of entries, numbered from the given number on; empty entries give none. -/
def commandsFrom (number : Nat) (entries : List Entry) : List Command :=
  (entries.zipIdx number).filterMap fun p => if p.1.tokens = [] then none
    else some ⟨p.2, p.1.tokens⟩

/-- **The commands of entries.** -/
def commands (entries : List Entry) : List Command := commandsFrom 1 entries

/-- The text in the line dialect, one line each. -/
def text (entries : List Entry) : String := String.ofList (['\n'].intercalate (entries.map line))

/-- The document in the JSON dialect. -/
def document (entries : List Entry) : Json := .object [(commandsKey, .array (entries.map json))]

theorem commandsFrom_cons (number : Nat) (e : Entry) (es : List Entry) :
    commandsFrom number (e :: es) =
      if e.tokens = [] then commandsFrom (number + 1) es
      else ⟨number, e.tokens⟩ :: commandsFrom (number + 1) es := by
  rw [commandsFrom, List.zipIdx_cons, List.filterMap_cons]
  by_cases htokens : e.tokens = [] <;> simp [htokens, commandsFrom]

end Entry

variable {e : Entry} {es : List Entry}

/-! ## The line dialect -/

/-- In quotes a doubled quote is read as one, up to a quote that is not doubled. -/
theorem scan_quoted_of_next (read rest : List Char) (hrest : rest.head? ≠ some '"')
    (token : List Char) :
    scan (.quoted read)
      ((token.flatMap fun c => if c = '"' then ['"', '"'] else [c]) ++ '"' :: rest) =
        (read.reverse ++ token) :: scan .gap rest := by
  induction token generalizing read with
  | nil =>
    cases rest with
    | nil => simp [scan]
    | cons c cs =>
      have hc : c ≠ '"' := fun heq => hrest (heq ▸ rfl)
      simp [scan, hc]
  | cons c cs ih =>
    by_cases hc : c = '"'
    · subst hc
      simp [scan, ih]
    · simp [scan, hc, ih]

/-- **A quoted token is read as the token**, if no quote follows it. -/
theorem scan_quoted (token rest : List Char) (hrest : rest.head? ≠ some '"') :
    scan .gap (quoted token ++ rest) = token :: scan .gap rest := by
  have hopen : ∀ cs, scan .gap ('"' :: cs) = scan (.quoted []) cs := fun cs => by rw [scan]; rfl
  rw [quoted, List.cons_append, List.cons_append, List.append_assoc, List.singleton_append, hopen,
    scan_quoted_of_next [] rest hrest]
  rfl

namespace Text

/-- Trimming leaves nothing exactly of white space. -/
theorem trimChars_eq_nil_iff {cs : List Char} : trimChars cs = [] ↔ cs.all isSpace = true := by
  rw [trimChars, List.reverse_eq_nil_iff, List.dropWhile_eq_nil_iff, List.all_eq_true]
  refine ⟨fun h => ?_, fun h c hc => h c ((List.dropWhile_sublist _).mem (List.mem_reverse.1 hc))⟩
  refine List.dropWhile_eq_nil_iff.1 (Classical.byContradiction fun hne => ?_)
  -- the first character that is left is no white space
  have hhead := List.head_dropWhile_not isSpace hne
  rw [h _ (List.mem_reverse.2 (List.head_mem hne))] at hhead
  cases hhead

end Text

namespace Entry

theorem line_single (token : String) : (command [token]).line = quoted token.toList := by
  rw [line, List.map_cons, List.map_nil, List.intercalate_singleton]

theorem line_cons (token next : String) (tokens : List String) :
    (command (token :: next :: tokens)).line =
      quoted token.toList ++ ' ' :: (command (next :: tokens)).line := by
  rw [line, List.map_cons, List.map_cons, List.intercalate_cons_cons, List.append_assoc,
    line, List.map_cons]
  rfl

/-- **Scanning quoted tokens** gives them back. -/
theorem scan_line (tokens : List String) :
    scan .gap (command tokens).line = tokens.map String.toList := by
  induction tokens with
  | nil => rfl
  | cons token tokens ih =>
    cases tokens with
    | nil => simpa [line_single, scan] using scan_quoted token.toList [] (by simp)
    | cons next tokens =>
      have hspace : ∀ cs, scan .gap (' ' :: cs) = scan .gap cs := fun cs => by rw [scan]; rfl
      rw [line_cons, scan_quoted _ _ (by simp), hspace, ih]
      rfl

/-- The line of a command that has tokens begins and ends with a quote. -/
theorem ends_command {tokens : List String} (h : tokens ≠ []) :
    (command tokens).line.head? = some '"' ∧ (command tokens).line.getLast? = some '"' := by
  have hquoted : ∀ token : List Char, (quoted token).head? = some '"' ∧
      (quoted token).getLast? = some '"' :=
    fun token => ⟨rfl, by rw [quoted, List.getLast?_concat]⟩
  induction tokens with
  | nil => exact absurd rfl h
  | cons token tokens ih =>
    cases tokens with
    | nil =>
      rw [line_single]
      exact hquoted token.toList
    | cons next tokens =>
      rw [line_cons, List.head?_append, (hquoted _).1, List.getLast?_append, List.getLast?_cons,
        (ih (List.cons_ne_nil _ _)).2]
      exact ⟨rfl, rfl⟩

/-- The line of a command begins with a quote, so it is not the line of a label. -/
theorem labelLine?_command (tokens : List String) :
    labelLine? (String.ofList (command tokens).line) = none := by
  cases tokens with
  | nil => rfl
  | cons token tokens =>
    obtain ⟨cs, hcs⟩ := List.head?_eq_some_iff.1 (ends_command (List.cons_ne_nil token tokens)).1
    rw [hcs, labelLine?, String.toList_ofList]
    rfl

/-- The line of a label is read as its name, trimmed. -/
theorem labelLine?_label {name : String} (h : (label name).Plain) :
    labelLine? (String.ofList (label name).line) = some (Text.trim name) := by
  obtain ⟨hblank, hplain⟩ := h
  have hall : ∀ c ∈ name.toList, (c != '[' && c != ']') = true := by
    intro c hc
    have hopen : c ≠ '[' := fun heq => hplain '[' (by simp) (heq ▸ hc)
    have hclose : c ≠ ']' := fun heq => hplain ']' (by simp) (heq ▸ hc)
    simp [hopen, hclose]
  have hspan : (name.toList ++ [']']).span (fun c => c != '[' && c != ']') =
      (name.toList, [']']) := by
    rw [List.span_eq_takeWhile_dropWhile, List.takeWhile_append_of_pos hall,
      List.dropWhile_append_of_pos hall]
    simp
  have htrim : Text.trimChars name.toList ≠ [] := by
    rw [Ne, Text.trimChars_eq_nil_iff, Bool.not_eq_true]
    exact hblank
  have hspace : ('[' :: (name.toList ++ [']'])).dropWhile Text.isSpace =
    '[' :: (name.toList ++ [']']) := rfl
  simp only [labelLine?, line, String.toList_ofList, List.cons_append, hspace, hspan]
  simp [endsLine, htrim, Text.trim]

/-- **A line is read** as what its entry stands for. -/
theorem lineTokens_line (h : e.Plain) : lineTokens (String.ofList e.line) = e.tokens := by
  cases e with
  | label name => simp only [lineTokens, labelLine?_label h, tokens]
  | command tokens =>
    simp only [lineTokens, labelLine?_command]
    rw [tokenize, String.toList_ofList, scan_line]
    simp [Entry.tokens]

/-- A line does not end in a carriage return, and does not begin with a byte order mark. -/
theorem ends_line (e : Entry) :
    e.line.getLast? ≠ some '\r' ∧ e.line.head? ≠ some (Char.ofNat 0xFEFF) := by
  cases e with
  | label name =>
    rw [line, List.getLast?_concat, List.cons_append, List.head?_cons]
    exact ⟨by decide, by decide⟩
  | command tokens =>
    by_cases htokens : tokens = []
    · subst htokens
      exact ⟨by decide, by decide⟩
    · rw [(ends_command htokens).1, (ends_command htokens).2]
      exact ⟨by decide, by decide⟩

theorem notMem_quoted {token : List Char} (h : '\n' ∉ token) : '\n' ∉ quoted token := by
  intro hmem
  simp only [quoted, List.mem_append, List.mem_cons, List.mem_flatMap, List.not_mem_nil,
    or_false] at hmem
  rcases hmem with (hquote | ⟨c, hc, hmem⟩) | hquote
  · cases hquote
  · split at hmem
    · simp at hmem
    · exact h (List.mem_singleton.1 hmem ▸ hc)
  · cases hquote

/-- No entry has a line break in its line. -/
theorem notMem_line (h : e.Plain) : '\n' ∉ e.line := by
  cases e with
  | label name =>
    have hname := h.2 '\n' (by simp)
    simp [line, hname]
  | command tokens =>
    replace h := h.1
    induction tokens with
    | nil => exact List.not_mem_nil
    | cons token tokens ih =>
      obtain ⟨htoken, htokens⟩ := List.forall_mem_cons.1 h
      cases tokens with
      | nil =>
        rw [line_single]
        exact notMem_quoted htoken
      | cons next tokens =>
        rw [line_cons]
        simp [notMem_quoted htoken, ih htokens]

end Entry

theorem stripMark_of_head {cs : List Char} (h : cs.head? ≠ some (Char.ofNat 0xFEFF)) :
    stripMark cs = cs := by
  cases cs with
  | nil => rfl
  | cons c cs => exact if_neg fun heq => h (congrArg some heq)

/-- What has no line break in it goes on with the line. -/
theorem linesFrom_append {line : List Char} (h : '\n' ∉ line) (read cs : List Char) :
    linesFrom read (line ++ cs) = linesFrom (line.reverse ++ read) cs := by
  induction line generalizing read with
  | nil => rfl
  | cons c line ih =>
    obtain ⟨hc, hline⟩ := not_or.1 (mt List.mem_cons.2 h)
    rw [List.cons_append, linesFrom, if_neg (Ne.symm hc), ih hline, List.reverse_cons,
      List.append_assoc]
    rfl

/-- A line feed ends a line; no carriage return comes before it here. -/
theorem linesFrom_line {line : List Char} (h : '\n' ∉ line) (hreturn : line.getLast? ≠ some '\r')
    (cs : List Char) :
    linesFrom [] (line ++ '\n' :: cs) = line :: linesFrom [] cs := by
  have hdrop : dropReturn line.reverse = line.reverse := by
    unfold dropReturn
    split
    · next rest hrest =>
      rw [List.getLast?_eq_head?_reverse, hrest] at hreturn
      exact absurd rfl hreturn
    · rfl
  rw [linesFrom_append h, linesFrom, if_pos rfl, List.append_nil, hdrop, List.reverse_reverse]

namespace Entry

/-- The line of an entry is read as the entry, with the number of the line. -/
theorem commandsFrom_line (h : e.Plain) (number : Nat) (lines : List String) :
    StepScript.commandsFrom number (String.ofList e.line :: lines) =
      if e.tokens = [] then StepScript.commandsFrom (number + 1) lines
      else ⟨number, e.tokens⟩ :: StepScript.commandsFrom (number + 1) lines := by
  rw [StepScript.commandsFrom, lineTokens_line h]
  cases e.tokens <;> simp

/-- **The lines of entries are read** as the commands that they stand for. A line feed may end the
last one. -/
theorem commandsFrom_linesFrom {final : List Char} (hfinal : final = [] ∨ final = ['\n'])
    (h : ∀ e ∈ es, e.Plain) (number : Nat) :
    StepScript.commandsFrom number
      ((linesFrom [] (['\n'].intercalate (es.map line) ++ final)).map String.ofList) =
      commandsFrom number es := by
  induction es generalizing number with
  | nil => rcases hfinal with rfl | rfl <;> rfl
  | cons e es ih =>
    obtain ⟨he, hes⟩ := List.forall_mem_cons.1 h
    have hmem := notMem_line he
    have hreturn := (ends_line e).1
    rw [commandsFrom_cons]
    cases es with
    | nil =>
      rw [List.map_cons, List.map_nil, List.intercalate_singleton]
      rcases hfinal with rfl | rfl
      · by_cases hline : e.line = []
        · have htokens := lineTokens_line he
          rw [hline] at htokens
          rw [hline, ← htokens]
          rfl
        · rw [linesFrom_append hmem, linesFrom, if_neg (by simpa using hline), List.append_nil,
            List.reverse_reverse, List.map_cons, commandsFrom_line he]
          rfl
      · rw [linesFrom_line hmem hreturn, List.map_cons, commandsFrom_line he]
        rfl
    | cons next es =>
      rw [List.map_cons, List.map_cons, List.intercalate_cons_cons, List.append_assoc,
        List.append_assoc, List.singleton_append, linesFrom_line hmem hreturn, ← List.map_cons,
        List.map_cons, commandsFrom_line he,
        ih hes]

/-- The text of entries does not begin with a mark of byte order. -/
theorem head_lines {final : List Char} (hfinal : final = [] ∨ final = ['\n']) (es : List Entry) :
    (['\n'].intercalate (es.map line) ++ final).head? ≠ some (Char.ofNat 0xFEFF) := by
  cases es with
  | nil => rcases hfinal with rfl | rfl <;> decide
  | cons e es =>
    have hrest : ∃ cs, ['\n'].intercalate ((e :: es).map line) ++ final = e.line ++ cs ∧
        cs.head? ≠ some (Char.ofNat 0xFEFF) := by
      cases es with
      | nil => exact ⟨final, by simp, by rcases hfinal with rfl | rfl <;> decide⟩
      | cons next es =>
        refine ⟨'\n' :: (['\n'].intercalate ((next :: es).map line) ++ final),
          ?_, by rw [List.head?_cons]; decide⟩
        rw [List.map_cons, List.map_cons, List.intercalate_cons_cons, List.append_assoc,
          List.append_assoc]
        rfl
    obtain ⟨cs, hcs, hhead⟩ := hrest
    have hfirst := (ends_line e).2
    rw [hcs]
    cases hline : e.line with
    | nil => exact hhead
    | cons c rest =>
      rw [hline] at hfirst
      exact hfirst

/-- **The text of entries is read** as the commands that they stand for. -/
theorem readLines_text {final : List Char} (hfinal : final = [] ∨ final = ['\n'])
    (h : ∀ e ∈ es, e.Plain) :
    readLines (text es ++ String.ofList final) = commands es := by
  rw [readLines, physicalLines, text, ← String.ofList_append, String.toList_ofList,
    stripMark_of_head (head_lines hfinal es), commandsFrom_linesFrom hfinal h, commands]

/-! ## The JSON dialect -/

/-- **An entry of a document is read** as what it stands for. -/
theorem entryTokens_json (h : e.Plain) :
    ∃ fields, e.json.items? = some fields ∧ entryTokens fields = e.tokens := by
  cases e with
  | label name =>
    have htrim : Text.trim name ≠ "" := by
      intro heq
      have hnil := congrArg String.toList heq
      rw [Text.toList_trim] at hnil
      have hblank := Text.trimChars_eq_nil_iff.1 hnil
      rw [← Text.isBlank, h.1] at hblank
      cases hblank
    refine ⟨_, rfl, ?_⟩
    simp only [entryTokens, List.map_cons, List.map_nil, fieldToken]
    rw [if_pos ⟨trivial, htrim⟩, tokens]
  | command tokens =>
    refine ⟨_, rfl, ?_⟩
    have hfields : (tokens.map Json.string).map fieldToken = tokens := by
      rw [List.map_map]
      exact List.map_id' tokens
    rw [entryTokens, hfields]
    split
    · next marker name =>
      rw [if_neg fun hlabel => h.2 ⟨rfl, by rw [hlabel.1]; rfl⟩]
      rfl
    · rfl

/-- **A document of entries is read** as the commands that they stand for. -/
theorem entryCommands_json (script : String) (h : ∀ e ∈ es, e.Plain) (number : Nat) :
    entryCommands script number (es.map json) = .ok (commandsFrom number es) := by
  induction es generalizing number with
  | nil => rfl
  | cons e es ih =>
    obtain ⟨he, hes⟩ := List.forall_mem_cons.1 h
    obtain ⟨fields, hitems, htokens⟩ := entryTokens_json he
    simp only [List.map_cons, entryCommands, hitems, ih hes, htokens]
    rw [commandsFrom_cons]
    cases e.tokens with
    | nil => rfl
    | cons token tokens => rfl

/-- A document of entries is read as their commands. -/
theorem documentCommands_document (script : String) (h : ∀ e ∈ es, e.Plain) :
    documentCommands script (document es) = .ok (commands es) := by
  have hitems : ((document es).member? commandsKey).bind Json.items? = some (es.map json) := by
    simp [document, Json.member?, Assoc.lookup, Json.items?]
  simp only [documentCommands, hitems, entryCommands_json script h, commands]

/-- The text of an entry in a document reads back. -/
theorem reads_json (depth : Nat) (e : Entry) :
    Json.Reads (Json.readValue (depth + 2)) e.json.compact.toList e.json := by
  have hstrings : ∀ tokens : List String, ∀ v ∈ tokens.map Json.string,
      Json.Reads (Json.readValue (depth + 1)) v.compact.toList v :=
    fun tokens => List.forall_mem_map.2 fun token _ => Json.reads_quote depth token
  cases e with
  | command tokens => exact Json.reads_array (hstrings tokens)
  | label name => exact Json.reads_array (hstrings [labelMarker, name])

/-- **A document of entries is read back** from its compact text. -/
theorem read_compact_document (es : List Entry) :
    Json.read (document es).compact = .ok (document es) :=
  Json.read_of_reads
    (Json.reads_object (Json.reads_array (List.forall_mem_map.2 fun e _ => reads_json _ e)) _)

end Entry

/-! ## Both dialects -/

/-- **The dialects agree.** The text and any document of the same entries are read as the commands
that the entries stand for, and become the same script but for the dialect, with the same labels and
subroutines. If no command can run, both fail, for that reason. -/
theorem Script.read_alike (h : ∀ e ∈ es, e.Plain) {lines document : String}
    (hlines : lines = Entry.text es ∨ lines = Entry.text es ++ "\n")
    (hdocument : Json.read document = .ok (Entry.document es)) (name : String) :
    readLines lines = Entry.commands es ∧ readStructured name document = .ok (Entry.commands es) ∧
      ((∀ c ∈ Entry.commands es, c.isRunnable = false) ∧
          Script.read name .line lines = .error (Cause.nothingToRun name).failure ∧
          Script.read name .json document = .error (Cause.nothingToRun name).failure ∨
        (∃ c ∈ Entry.commands es, c.isRunnable = true) ∧ ∃ gotos gosubs warnings,
          Script.read name .line lines =
            .ok (⟨name, .line, Entry.commands es, gotos, gosubs⟩, warnings) ∧
          Script.read name .json document =
            .ok (⟨name, .json, Entry.commands es, gotos, gosubs⟩, warnings)) := by
  have hline : readLines lines = Entry.commands es := by
    rcases hlines with rfl | rfl
    · simpa using Entry.readLines_text (.inl rfl) h
    · exact Entry.readLines_text (.inr rfl) h
  have hjson : readStructured name document = .ok (Entry.commands es) := by
    rw [readStructured, stripMark_of_head (Json.head_of_read hdocument), String.ofList_toList]
    simp only [hdocument, Entry.documentCommands_document name h]
  refine ⟨hline, hjson, ?_⟩
  simp only [Script.read, Script.commandsOf, hline, hjson]
  by_cases hrun : (Entry.commands es).any Command.isRunnable = true
  · rw [if_pos hrun, if_pos hrun]
    exact .inr ⟨List.any_eq_true.1 hrun, _, _, _, rfl, rfl⟩
  · rw [if_neg hrun, if_neg hrun]
    rw [Bool.not_eq_true, List.any_eq_false] at hrun
    exact .inl ⟨fun c hc => Bool.eq_false_iff.2 (hrun c hc), rfl, rfl⟩

/-- A script with a label, a subroutine, quotes, and tokens that look like a label, a comment and
the end of a line. -/
def motley : List Entry :=
  [.label " Top ", .command ["say", "a \"b\"", "", "[x]", ";", "\r"], .command [],
    .command ["beginsub", "Greet"], .command ["endsub"], .command ["goto", "top"]]

/-- Both dialects number the commands alike, the empty entry included, and find the label at the
first command and the subroutine at the third. -/
theorem motley_alike : (∀ e ∈ motley, e.Plain) ∧
    (Entry.commands motley).map Command.line = [1, 2, 4, 5, 6] ∧
    readLines (Entry.text motley) = Entry.commands motley ∧
    readStructured "motley" (Entry.document motley).compact = .ok (Entry.commands motley) ∧
    ∃ gotos gosubs warnings, gotos.find? "top" = some 0 ∧ gosubs.find? "greet" = some 2 ∧
      Script.read "motley" .line (Entry.text motley) =
        .ok (⟨"motley", .line, Entry.commands motley, gotos, gosubs⟩, warnings) ∧
      Script.read "motley" .json (Entry.document motley).compact =
        .ok (⟨"motley", .json, Entry.commands motley, gotos, gosubs⟩, warnings) := by
  have hplain : ∀ e ∈ motley, e.Plain := by decide +kernel
  have hmaps : ((Script.read "motley" .line (Entry.text motley)).toOption.map fun r =>
      (r.1.gotos.find? "top", r.1.gosubs.find? "greet")) = some (some 0, some 2) := by
    decide +kernel
  obtain ⟨hline, hjson, ⟨-, hnone, -⟩ | ⟨-, gotos, gosubs, warnings, hlineMaps, hjsonMaps⟩⟩ :=
    Script.read_alike hplain (.inl rfl) (Entry.read_compact_document motley) "motley"
  · rw [hnone] at hmaps
    cases hmaps
  · rw [hlineMaps] at hmaps
    obtain ⟨htop, hgreet⟩ := Prod.mk.inj (Option.some.inj hmaps)
    exact ⟨hplain, by decide +kernel, hline, hjson, gotos, gosubs, warnings, htop, hgreet,
      hlineMaps, hjsonMaps⟩

end StepScript
