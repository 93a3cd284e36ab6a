import StepScript.Proofs.Script.LabelKey

/-!
# Proofs/Script/Size — a script is no larger than its source

Every source line gives at most one command, and the command keeps the number of its line. A command
declares a label, opens a subroutine or is just run, and it is entered in one of the two maps at
most once. So the labels, the subroutines and the other commands to run are no more than the source
lines. A `beginsub` is to be run as well, for whoever meets it on the way skips the body; so it
counts once as a subroutine and once as a command to run.

* `sourceLines` — the lines of a text in either dialect.
* `Script.lines_sublist` — the commands of a script bear the numbers of some of them, in their
  order.
* `Script.size_le_sourceLines` — the size law.
-/

namespace StepScript

/-! ## Source lines -/

/-- The entries of the command list of a document. -/
def documentEntries (text : String) : List Json :=
  match Json.read (String.ofList (stripMark text.toList)) with
  | .error _ => []
  | .ok document => ((document.member? commandsKey).bind Json.items?).getD []

/-- **How many source lines a text has**: physical lines, or entries of the command list. -/
def sourceLines (dialect : Dialect) (text : String) : Nat :=
  match dialect with
  | .line => (physicalLines text).length
  | .json => (documentEntries text).length

/-- The entries of a document are the items of its list of commands. -/
theorem documentEntries_eq {text : String} {document : Json} {entries : List Json}
    (hread : Json.read (String.ofList (stripMark text.toList)) = .ok document)
    (hentries : (document.member? commandsKey).bind Json.items? = some entries) :
    documentEntries text = entries := by
  rw [documentEntries, hread]
  exact congrArg (Option.getD · []) hentries

/-- **The commands of a script bear the numbers of source lines**, in their order. -/
theorem Script.lines_sublist {name text : String} {dialect : Dialect} {script : Script}
    {warnings : List Diagnostic} (h : Script.read name dialect text = .ok (script, warnings)) :
    (script.commands.map Command.line).Sublist (List.range' 1 (sourceLines dialect text)) := by
  have hcommands := (Script.read_eq_ok h).1
  cases dialect with
  | line =>
    rw [← Except.ok.inj hcommands]
    exact commandsFrom_lines 1 (physicalLines text)
  | json =>
    obtain ⟨document, entries, hread, hentries, hlines⟩ := readStructured_eq_ok hcommands
    rw [sourceLines, documentEntries_eq hread hentries]
    exact entryCommands_lines hlines

/-! ## Kinds of commands -/

namespace Command

/-- Whether a command opens a subroutine that has a name. -/
def opensSubroutine (c : Command) : Bool := c.gosubKey?.isSome

/-- Whether a command is to be run and does not open a subroutine. -/
def isOrdinary (c : Command) : Bool := c.isRunnable && !c.opensSubroutine

/-- A command that can run is not a label. -/
theorem not_isLabel_of_isRunnable {c : Command} (h : c.isRunnable = true) : c.isLabel = false := by
  refine Bool.eq_false_iff.2 fun hlabel => ?_
  obtain ⟨name, hname⟩ := Option.isSome_iff_exists.1 hlabel
  rw [not_isRunnable_of_label hname] at h
  cases h

theorem not_isLabel_of_opensSubroutine {c : Command} (h : c.opensSubroutine = true) :
    c.isLabel = false := by
  refine Bool.eq_false_iff.2 fun hlabel => ?_
  rw [opensSubroutine, gosubKey?, hlabel] at h
  cases h

/-- A label is not to be run. -/
theorem countP_label_add_runnable (cs : List Command) :
    cs.countP isLabel + cs.countP isRunnable ≤ cs.length := by
  rw [List.length_eq_countP_add_countP isLabel]
  refine Nat.add_le_add_left (List.countP_mono_left fun c _ hrun => ?_) _
  simp [not_isLabel_of_isRunnable hrun]

/-- **A command is of one kind at most**: a label, the head of a subroutine or an ordinary one. -/
theorem countP_kinds (cs : List Command) :
    cs.countP isLabel + cs.countP opensSubroutine + cs.countP isOrdinary ≤ cs.length := by
  induction cs with
  | nil => exact Nat.le_refl 0
  | cons c cs ih =>
    have hone : (if c.isLabel then 1 else 0) + (if c.opensSubroutine then 1 else 0) +
        (if c.isOrdinary then 1 else 0) ≤ 1 := by
      by_cases hopens : c.opensSubroutine = true
      · simp [isOrdinary, hopens, not_isLabel_of_opensSubroutine hopens]
      · by_cases hrun : c.isRunnable = true
        · simp [isOrdinary, hopens, hrun, not_isLabel_of_isRunnable hrun]
        · simp only [isOrdinary, hopens, hrun]
          split <;> simp
    rw [List.countP_cons, List.countP_cons, List.countP_cons, List.length_cons]
    omega

end Command

/-! ## Declarations -/

namespace Assoc

variable {κ α : Type} [DecidableEq κ] {cmp : κ → κ → Ordering}

theorem length_put_le (k : κ) (v : α) (es : List (κ × α)) :
    (put cmp k v es).length ≤ es.length + 1 := by
  induction es with
  | nil => exact Nat.le_refl 1
  | cons e es ih =>
    rw [put]
    split
    · simp
    · split
      · simp
      · simpa using ih

end Assoc

namespace Declarations

/-- Entering a name adds at most one. -/
theorem size_enter_le (m : LabelMap) (key : String) (index : Nat) :
    (enter m key index).size ≤ m.size + 1 := by
  unfold enter
  split
  · exact Nat.le_succ _
  · exact Assoc.length_put_le key index m.entries

theorem size_gotos_declare (script : String) (d : Declarations) (index : Nat) (c : Command) :
    (d.declare script index c).gotos.size ≤ d.gotos.size + if c.isLabel then 1 else 0 := by
  unfold declare Command.isLabel
  cases c.label? with
  | some name => exact size_enter_le ..
  | none =>
    dsimp only
    split
    · split <;> exact Nat.le_add_right _ _
    · exact Nat.le_add_right _ _

theorem size_gosubs_declare (script : String) (d : Declarations) (index : Nat) (c : Command) :
    (d.declare script index c).gosubs.size ≤ d.gosubs.size + if c.opensSubroutine
      then 1 else 0 := by
  unfold declare Command.opensSubroutine Command.gosubKey? Command.isLabel
  cases c.label? with
  | some name => exact Nat.le_add_right _ _
  | none =>
    dsimp only
    split
    · next hstart =>
      cases c.tokens[1]? with
      | none => exact Nat.le_add_right _ _
      | some name => simpa [hstart] using size_enter_le d.gosubs (labelKey name) index
    · exact Nat.le_add_right _ _

/-- What each command enlarges by one at most has no more entries than there are such commands. -/
theorem size_declareAll {map : Declarations → LabelMap} {declares : Command → Bool}
    {script : String} (hstep : ∀ d index c,
      (map (declare script d index c)).size ≤ (map d).size + if declares c then 1 else 0)
    (d : Declarations) (index : Nat) (cs : List Command) :
    (map (declareAll script d index cs)).size ≤ (map d).size + cs.countP declares := by
  induction cs generalizing d index with
  | nil => exact Nat.le_refl _
  | cons c cs ih =>
    rw [declareAll, List.countP_cons]
    have hrest := ih (d.declare script index c) (index + 1)
    have hfirst := hstep d index c
    omega

/-- **There are no more labels to go to than commands that are labels.** -/
theorem size_gotos (script : String) (commands : List Command) :
    (Declarations.of script commands).gotos.size ≤ commands.countP Command.isLabel :=
  (size_declareAll (size_gotos_declare script) {} 0 commands).trans_eq (Nat.zero_add _)

/-- The same for subroutines. -/
theorem size_gosubs (script : String) (commands : List Command) :
    (Declarations.of script commands).gosubs.size ≤ commands.countP Command.opensSubroutine :=
  (size_declareAll (size_gosubs_declare script) {} 0 commands).trans_eq (Nat.zero_add _)

end Declarations

/-! ## The size law -/

namespace Script

/-- **The size law.** The labels and the commands to run are no more than the source lines; nor are
the labels, the subroutines and the commands to run that do not open one. Line numbers increase and
are numbers of source lines. -/
theorem size_le_sourceLines {name text : String} {dialect : Dialect} {script : Script}
    {warnings : List Diagnostic} (h : Script.read name dialect text = .ok (script, warnings)) :
    script.gotos.size + script.runnableCount ≤ sourceLines dialect text ∧
      script.gotos.size + script.gosubs.size + script.commands.countP Command.isOrdinary ≤
        sourceLines dialect text ∧
      script.commands.Pairwise (fun c d => c.line < d.line) ∧
      ∀ c ∈ script.commands, 1 ≤ c.line ∧ c.line ≤ sourceLines dialect text := by
  have hlines := lines_sublist h
  have hlength : script.commands.length ≤ sourceLines dialect text := by
    simpa using hlines.length_le
  obtain ⟨-, -, hgotos, hgosubs, -⟩ := read_eq_ok h
  have hlabels : script.gotos.size ≤ script.commands.countP Command.isLabel := by
    rw [hgotos]
    exact Declarations.size_gotos name script.commands
  have hsubs : script.gosubs.size ≤ script.commands.countP Command.opensSubroutine := by
    rw [hgosubs]
    exact Declarations.size_gosubs name script.commands
  have hrun := Command.countP_label_add_runnable script.commands
  have hkinds := Command.countP_kinds script.commands
  refine ⟨?_, by omega, ?_, fun c hc => ?_⟩
  · rw [runnableCount]
    omega
  · exact List.pairwise_map.1 (List.Pairwise.sublist hlines (List.pairwise_lt_range' 1))
  · have hline := List.mem_range'_1.1 (hlines.subset (List.mem_map_of_mem hc))
    omega

/-- A script each of whose lines declares something or is run. -/
def packed : String := "[top]\nbeginsub greet\nsay hello\nendsub\ngosub greet\ngoto top\n"

/-- A script of six lines, with a label, a subroutine and five commands that can run, reaches both
bounds. -/
theorem packed_size :
    ∃ script warnings, Script.read "packed" .line packed = .ok (script, warnings) ∧
      script.gotos.size = 1 ∧ script.gosubs.size = 1 ∧ script.runnableCount = 5 ∧
      script.commands.countP Command.isOrdinary = 4 ∧ sourceLines .line packed = 6 ∧
      script.gotos.size + script.runnableCount ≤ sourceLines .line packed ∧
      script.gotos.size + script.gosubs.size + script.commands.countP Command.isOrdinary ≤
        sourceLines .line packed := by
  have hread : Script.read "packed" .line packed = .ok (⟨"packed", .line,
      [⟨1, ["[top]"]⟩, ⟨2, ["beginsub", "greet"]⟩, ⟨3, ["say", "hello"]⟩, ⟨4, ["endsub"]⟩,
        ⟨5, ["gosub", "greet"]⟩, ⟨6, ["goto", "top"]⟩], .ofList [("top", 0)],
        .ofList [("greet", 1)]⟩, []) := by decide +kernel
  obtain ⟨hrun, hkinds, -, -⟩ := size_le_sourceLines hread
  exact ⟨_, _, hread, by decide +kernel, by decide +kernel, by decide +kernel,
    by decide +kernel, by decide +kernel, hrun, hkinds⟩

/-- A subroutine on two lines counts three times: as a subroutine, and both its lines are to be
run. -/
theorem lone_subroutine_exceeds : ∃ script warnings,
    Script.read "main" .line "beginsub a\nendsub\n" = .ok (script, warnings) ∧
      sourceLines .line "beginsub a\nendsub\n" <
        script.gotos.size + script.gosubs.size + script.runnableCount := by
  have hread : Script.read "main" .line "beginsub a\nendsub\n" =
      .ok (⟨"main", .line, [⟨1, ["beginsub", "a"]⟩, ⟨2, ["endsub"]⟩], ∅, .ofList [("a", 0)]⟩,
        []) := by decide +kernel
  exact ⟨_, _, hread, by decide +kernel⟩

end Script

end StepScript
