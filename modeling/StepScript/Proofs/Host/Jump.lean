import StepScript.Proofs.Host.History
import StepScript.Proofs.Host.Promise
import StepScript.Proofs.Host.Scoping
import StepScript.Proofs.Script.LabelKey

/-!
# Proofs/Host/Jump — jumps land on labels

A jump leads to the label that its operand names. A label is not run, so the next step executes the
first command behind it that can run; without such a command the script ends. What happens to the
machine between the two steps does not matter, as long as the frame comes back: a scan that is
forgotten is made again.

* `Script.labels_reached_iff` — which labels are found by what is written on their lines.
* `Machine.Proceeds` — the next step of an invocation, given where it goes on.
* `Machine.Reachable.jump_lands` — what follows a jump.
-/

namespace StepScript

namespace Machine

variable {m m' : Machine} {s : Setting} {l : Line} {frame : Frame}

/-! ## Labels -/

/-- **A jump** asks the frame for the key of what its operand says, and changes nothing. -/
theorem run_jumpTo (s : Setting) (hf : m.frames.get? l.frame = some frame) (operand : String) :
    ((jumpTo s l operand).run m).value =
        (frame.gotos.find? (labelKey (l.nameOf s m operand))).elim .next .jump ∧
      ((jumpTo s l operand).run m).state = m := by
  simp only [jumpTo, Act.run_bind, state_readName, Act.run_get, hf, Option.bind_some, Line.nameOf]
  cases frame.gotos.find? (labelKey ((readName s l.vantage operand).run m).value) <;>
    exact ⟨rfl, rfl⟩

/-- A token in brackets is no variable. -/
theorem nameOf_of_label {token name : String} (h : labelInner? token = some name) :
    l.nameOf s m token = token := by
  obtain ⟨inner, hinner, -⟩ := labelInner?_eq_some h
  refine nameOf_of_literal (TokenRef.of_unmarked fun hdollar => ?_)
  rw [unbracket?_eq_some_iff.1 hinner] at hdollar
  cases hdollar

end Machine

namespace Script

open Machine

/-- **A label is reached by its token**: the first label with a token of the same key is the one
that is entered under this key, and all jumps of frames of the script with an operand of this key
lead there. -/
structure Reaches (script : Script) (token : String) (index : Nat) : Prop where
  first : script.commands.findIdx? (fun c => c.tokenKey? == some (labelKey token)) = some index
  entered : script.gotos.find? (labelKey token) = some index
  operand : ∀ (s : Setting) (l : Line) (m : Machine) (frame : Frame) (operand : String),
    m.frames.get? l.frame = some frame → frame.gotos = script.gotos →
    labelKey (l.nameOf s m operand) = labelKey token →
    ((jumpTo s l operand).run m).value = .jump index
  /-- The token itself is such an operand. -/
  token : ∀ (s : Setting) (l : Line) (m : Machine) (frame : Frame),
    m.frames.get? l.frame = some frame → frame.gotos = script.gotos →
    ((jumpTo s l token).run m).value = .jump index

variable {script : Script} {name text : String} {dialect : Dialect} {warnings : List Diagnostic}
  {c : Command} {token : String} {index : Nat}

/-- A key of a script that was read leads to the first label that is entered under it. -/
theorem find?_gotos_of_read (h : read name dialect text = .ok (script, warnings)) (key : String) :
    script.gotos.find? key = script.commands.findIdx? fun c => c.labelKey? == some key := by
  obtain ⟨-, -, hgotos, -⟩ := read_eq_ok h
  rw [hgotos, Declarations.find?_gotos]

/-- The same for subroutines. -/
theorem find?_gosubs_of_read (h : read name dialect text = .ok (script, warnings)) (key : String) :
    script.gosubs.find? key = script.commands.findIdx? fun c => c.gosubKey? == some key := by
  obtain ⟨-, -, -, hgosubs, -⟩ := read_eq_ok h
  rw [hgosubs, Declarations.find?_gosubs]

/-- The token of a label reaches an index exactly if its key leads home there. -/
theorem reaches_iff (h : read name dialect text = .ok (script, warnings))
    (htokens : c.tokens = [token]) (hlabel : c.isLabel = true) :
    script.Reaches token index ↔ LeadsHome script.commands (labelKey token) index := by
  constructor
  · exact fun hreaches => ⟨find?_gotos_of_read h _ ▸ hreaches.entered, hreaches.first⟩
  · rintro ⟨hentered, hfirst⟩
    rw [← find?_gotos_of_read h] at hentered
    have hjump : ∀ (s : Setting) (l : Line) (m : Machine) (frame : Frame) (operand : String),
        m.frames.get? l.frame = some frame → frame.gotos = script.gotos →
        labelKey (l.nameOf s m operand) = labelKey token →
        ((jumpTo s l operand).run m).value = .jump index := by
      intro s l m frame operand hf hgotos hkey
      rw [(run_jumpTo s hf operand).1, hgotos, hkey, hentered]
      rfl
    obtain ⟨name, hname⟩ := Option.isSome_iff_exists.1 hlabel
    obtain ⟨token', htokens', hinner⟩ := Command.label?_eq_some hname
    obtain rfl : token' = token := List.singleton_inj.1 (htokens'.symm.trans htokens)
    exact ⟨hfirst, hentered, hjump, fun s l m frame hf hgotos =>
      hjump s l m frame token' hf hgotos (congrArg labelKey (nameOf_of_label hinner))⟩

/-- A command that declares a key is found, or an earlier one. -/
theorem exists_findIdx? {commands : List Command} {keyOf : Command → Option String} {key : String}
    (hc : c ∈ commands) (hkey : keyOf c = some key) :
    ∃ index, commands.findIdx? (fun c => keyOf c == some key) = some index := by
  rw [← Option.isSome_iff_exists, List.findIdx?_isSome, List.any_eq_true]
  exact ⟨c, hc, beq_iff_eq.2 hkey⟩

/-- **Which labels are found by what is written on their lines.** A label is reached by its token
exactly if the label entered under the key of the token is not nested; so all labels are, exactly if
none is nested. A label is always found by its name, and a subroutine by its name: the first one
declared under the key. -/
theorem labels_reached_iff (h : read name dialect text = .ok (script, warnings)) :
    (∀ c ∈ script.commands, ∀ token, c.tokens = [token] → c.isLabel = true →
        ((∃ index, script.Reaches token index) ↔
          ∃ index c', script.gotos.find? (labelKey token) = some index ∧
          script.commands[index]? = some c' ∧ c'.isNested = false)) ∧
      ((∀ c ∈ script.commands, ∀ token, c.tokens = [token] → c.isLabel = true →
        ∃ index, script.Reaches token index) ↔
        ∀ c ∈ script.commands, c.isNested = false) ∧
      (∀ c ∈ script.commands, ∀ name, c.label? = some name →
        ∃ index, script.gotos.find? (labelKey name) = some index ∧
          script.commands.findIdx? (fun c' => c'.label?.map labelKey == some (labelKey name)) =
            some index) ∧
      ∀ c ∈ script.commands, ∀ name, c.isLabel = false → c.startsWith beginsub = true →
      c.tokens[1]? = some name →
        ∃ index, script.gosubs.find? (labelKey name) = some index ∧
          script.commands.findIdx? (fun c' => c'.gosubKey? == some (labelKey name)) =
            some index := by
  refine ⟨fun c _ token htokens hlabel => ?_, ?_, fun c hc name hname => ?_,
    fun c hc name hlabel hstart hname => ?_⟩
  · simp only [reaches_iff h htokens hlabel, leadsHome_iff, find?_gotos_of_read h, exists_and_left]
  · rw [← forall_leadsHome_iff]
    constructor
    · intro hall c hc key hkey
      obtain ⟨token, name, htokens, hname, -, rfl⟩ := Command.tokenKey?_eq_some hkey
      obtain ⟨index, hreaches⟩ := hall c hc token htokens (Option.isSome_of_eq_some hname)
      exact ⟨index, (reaches_iff h htokens (Option.isSome_of_eq_some hname)).1 hreaches⟩
    · intro hall c hc token htokens hlabel
      obtain ⟨index, hleads⟩ := hall c hc _ (Command.tokenKey?_of_label htokens hlabel)
      exact ⟨index, (reaches_iff h htokens hlabel).2 hleads⟩
  · have hkey : c.labelKey? = some (labelKey name) := congrArg (Option.map labelKey) hname
    obtain ⟨index, hindex⟩ := exists_findIdx? hc hkey
    exact ⟨index, (find?_gotos_of_read h _).trans hindex, hindex⟩
  · have hkey : c.gosubKey? = some (labelKey name) := by
      rw [Command.gosubKey?, hlabel, hstart, hname]
      rfl
    obtain ⟨index, hindex⟩ := exists_findIdx? hc hkey
    exact ⟨index, (find?_gosubs_of_read h _).trans hindex, hindex⟩

/-- A script that declares a label twice, and a subroutine. -/
def tour : String := "[ Top ]\nsay hi\n[top]\nbeginsub Say\nendsub\ngoto TOP\n"

/-- Both labels are reached, as the first of them, and so is the subroutine. -/
theorem tour_reached : ∃ script warnings, read "tour" .line tour = .ok (script, warnings) ∧
    (∀ c ∈ script.commands, c.isNested = false) ∧ script.Reaches "[Top]" 0 ∧
    script.Reaches "[top]" 0 ∧
    script.gosubs.find? (labelKey "Say") = some 3 := by
  have hcommands : ((read "tour" .line tour).toOption.map fun r =>
      (r.1.commands.map Command.isNested, (r.1.commands.take 3).map Command.tokens)) =
        some ([false, false, false, false, false, false],
          [["[Top]"], ["say", "hi"], ["[top]"]]) := by
    decide +kernel
  have hkeys : ((read "tour" .line tour).toOption.map fun r => (r.1.gotos.find? (labelKey "[Top]"),
      r.1.gotos.find? (labelKey "[top]"), r.1.gosubs.find? (labelKey "Say"))) =
        some (some 0, some 0, some 3) := by
    decide +kernel
  have hlabels : (labelInner? "[Top]").isSome = true ∧ (labelInner? "[top]").isSome = true := by
    decide +kernel
  cases hread : read "tour" .line tour with
  | error failure =>
    rw [hread] at hkeys
    cases hkeys
  | ok r =>
    obtain ⟨script, warnings⟩ := r
    rw [hread] at hcommands hkeys
    obtain ⟨hnested, htokens⟩ := Prod.mk.inj (Option.some.inj hcommands)
    obtain ⟨hTop, htop, hsay⟩ : _ ∧ _ ∧ _ := by
      simpa only [Prod.mk.injEq] using Option.some.inj hkeys
    have hplain : ∀ c ∈ script.commands, c.isNested = false := by
      intro c hc
      have hmem := List.mem_map_of_mem (f := Command.isNested) hc
      rw [hnested] at hmem
      simpa using hmem
    have hlabel : ∀ token, [token] ∈ (script.commands.take 3).map Command.tokens →
        (labelInner? token).isSome = true → ∃ index, script.Reaches token index := by
      intro token hmem hsome
      obtain ⟨c, hc, htoken⟩ := List.mem_map.1 hmem
      have hisLabel : c.isLabel = true := by rw [Command.isLabel, Command.label?, htoken, hsome]
      exact (labels_reached_iff hread).2.1.2 hplain c (List.mem_of_mem_take hc)
        token htoken hisLabel
    obtain ⟨i, hi⟩ := hlabel "[Top]" (by simp [htokens]) hlabels.1
    obtain ⟨j, hj⟩ := hlabel "[top]" (by simp [htokens]) hlabels.2
    obtain rfl : 0 = i := Option.some.inj (hTop.symm.trans hi.entered)
    obtain rfl : 0 = j := Option.some.inj (htop.symm.trans hj.entered)
    exact ⟨script, warnings, rfl, hplain, hi, hj, hsay⟩

/-- A script with a jump to a label whose name is in brackets. -/
def maze : String :=
  "\x7b\"cmd\":[[\"goto\",\"[[a]]\"],[\"set\",\"$global#x\",\"1\"],[\":\",\"[a]\"]," ++
    "[\"set\",\"$global#y\",\"2\"]]\x7d"

/-- The label is not found by its token. -/
theorem maze_not_reached : ∃ script warnings c, read "main" .json maze = .ok (script, warnings) ∧
    c ∈ script.commands ∧ c.tokens = ["[[a]]"] ∧ c.isLabel = true ∧
    ¬ ∃ index, script.Reaches "[[a]]" index := by
  have hfacts : ((read "main" .json maze).toOption.map fun r =>
      (r.1.commands[2]?.map fun c => (c.tokens, c.isLabel), r.1.gotos.find? (labelKey "[[a]]"))) =
        some (some (["[[a]]"], true), none) := by
    decide +kernel
  cases hread : read "main" .json maze with
  | error failure =>
    rw [hread] at hfacts
    cases hfacts
  | ok r =>
    rw [hread] at hfacts
    obtain ⟨hcommand, hnone⟩ := Prod.mk.inj (Option.some.inj hfacts)
    obtain ⟨c, hc, heq⟩ := Option.map_eq_some_iff.1 hcommand
    obtain ⟨htokens, hlabel⟩ := Prod.mk.inj heq
    refine ⟨r.1, r.2, c, rfl, List.mem_of_getElem? hc, htokens, hlabel, ?_⟩
    rintro ⟨index, hreaches⟩
    rw [hreaches.entered] at hnone
    cases hnone

end Script

/-! ## Jumps -/

/-- **The line jumps to a label**: it is a `goto`, or an `if` whose condition holds. -/
inductive Line.Jumps (s : Setting) (l : Line) (m : Machine) (label : String) : Prop where
  | goto {first : String} (hkeyword : l.keyword? s m = some .goto)
    (htokens : l.tokens = [first, label])
  | cond {first left operator right : String} (hkeyword : l.keyword? s m = some .cond)
    (htokens : l.tokens = [first, left, operator, right, label]) (hholds : l.holds s m = true)

namespace Executed

variable (e : Executed)

/-- The line was a jump to the label. -/
def Jumps (label : String) : Prop := e.line.Jumps e.setting e.machine label

/-- The key of the label that a token named. -/
def keyOf (label : String) : String := labelKey (e.line.nameOf e.setting e.machine label)

end Executed

namespace Machine

variable {m m' : Machine} {s : Setting} {l : Line} {t : ThreadHandle} {f : FrameHandle}
  {below : List FrameHandle} {frame : Frame} {label : String} {e : Executed}

/-- A line that jumps does nothing else. -/
theorem run_plan_of_jumps (h : l.Jumps s m label) (hf : m.frames.get? l.frame = some frame) :
    ((plan s l).run m).value =
      .go ((frame.gotos.find? (labelKey (l.nameOf s m label))).elim .next .jump) ∧
      ((plan s l).run m).state = m := by
  obtain ⟨hvalue, hstate⟩ := run_jumpTo s hf label
  cases h with
  | goto hkeyword htokens =>
    rw [(run_plan_of_keyword hkeyword).1, (run_plan_of_keyword hkeyword).2]
    simp only [planKeyword, runGoto, htokens, Act.run_map, hvalue, hstate, and_self]
  | cond hkeyword htokens hholds =>
    rw [(run_plan_of_keyword hkeyword).1, (run_plan_of_keyword hkeyword).2]
    simp only [Line.holds, htokens, beq_iff_eq] at hholds
    simp only [planKeyword, runIf, htokens, Act.run_map, Act.run_bind, state_readToken, hholds,
      hvalue, hstate, and_self]

/-- The line that a step of an invocation executes is one of its innermost frame, which does not
wait. -/
theorem Sound.stack_of_executed (hsound : m.Sound)
    (he : m.executed? s (.stepInvocation t) = some e) :
    ∃ below, m.stackAt t = some (e.line.frame :: below) ∧ m.pendingAt e.line.frame = none := by
  obtain ⟨k, hk, hline⟩ := Option.bind_eq_some_iff.1 he
  obtain ⟨below, hstack⟩ := stackAt_of_frameOf hk
  unfold lineAt? at hline
  rcases hsound.idle_or_innermost k with hidle | ⟨t', below', frame, horder, hf, hpending⟩
  · rw [hidle] at hline
    cases hline
  · rcases horder.run_prepare hf hpending with ⟨l, rfl, -, -, hrun⟩ | ⟨-, signal, m', -, hrun⟩
    · rw [hrun] at hline
      cases hline
      exact ⟨below, hstack, (pendingAt_of_get? hf).trans hpending⟩
    · rw [hrun] at hline
      cases hline

/-- A label is passed over. -/
theorem FrameSound.skips_label (h : m.FrameSound frame) {key : String} {index : Nat}
    (hkey : frame.gotos.find? key = some index) : Skips (m.commandAt frame) index (index + 1) := by
  obtain ⟨commands, hcommands, hdeclared⟩ := h.declared
  obtain ⟨command, name, hcommand, hname, -⟩ := hdeclared.label key index hkey
  refine ⟨Nat.le_succ index, fun i found hi hlt hfound => ?_⟩
  obtain rfl : i = index := by omega
  rw [FrameSound.commandAt_eq i hcommands, hcommand] at hfound
  cases hfound
  exact Command.not_isRunnable_of_label hname

end Machine

/-- **A jump moves the cursor** to the label, or behind the line if there is none, and does nothing
else. -/
theorem Host.machine_of_jumps {η : Type} {h : Host η} {w : World η} {op : Operation} {e : Executed}
    {frame : Frame} {label : String} (hsound : w.machine.Sound)
    (he : w.machine.executed? h.toSetting op = some e) (hjumps : e.Jumps label)
    (hf : w.machine.frames.get? e.line.frame = some frame) :
    ((h.perform op).run w).state.machine =
      w.machine.moveCursor e.line.frame
        ((frame.gotos.find? (e.keyOf label)).getD (e.line.index + 1)) := by
  obtain ⟨hsetting, hmachine, -, hrun⟩ := perform_of_executed hsound he
  obtain ⟨hvalue, hstate⟩ :=
    Machine.run_plan_of_jumps hjumps
      (hmachine ▸ Machine.get?_frames_readied (hsound.frame _ _ hf) hf)
  rw [hsetting, hmachine] at hvalue hstate
  rw [hrun, execute, Act.run_bind, World.run_liftM]
  simp only [hvalue, hstate, Act.run_bind, World.run_liftM, Act.run_pure, Machine.state_follow,
    Machine.moveCursor_readied, Executed.keyOf, hsetting, hmachine]
  cases frame.gotos.find?
    (labelKey (e.line.nameOf h.toSetting (w.machine.readied e.line.frame) label)) <;> rfl

/-! ## The next step -/

namespace Machine

variable {m m' : Machine} {t : ThreadHandle} {f : FrameHandle} {below : List FrameHandle}
  {frame : Frame} {l : Line} {index : Nat} {command : Command} {signal : Signal}

/-- **The next step of the invocation executes a command** of the frame, whoever the host is. -/
def Executes (m : Machine) (t : ThreadHandle) (f : FrameHandle) (index : Nat) (command : Command) :
    Prop :=
  ∃ l : Line, l.thread = t ∧ l.frame = f ∧ l.index = index ∧ l.source.line = command.line ∧
    l.tokens = command.tokens ∧ ∀ {η : Type} (h : Host η) (w : World η), w.machine = m →
      (h.stepInvocation t).run w = (h.execute l).run { w with machine := m.readied f }

/-- **The next step of the invocation takes the frame off the stack**, and the host is not asked for
anything. -/
def Leaves (m : Machine) (t : ThreadHandle) (f : FrameHandle) : Prop :=
  ∃ signal m', Unwinds t (m.readied f) signal m' ∧ m'.frames.get? f = none ∧
    ∀ {η : Type} (h : Host η) (w : World η), w.machine = m →
      (h.stepInvocation t).run w = ⟨.ok signal, { w with machine := m' }, []⟩

/-- **The invocation goes on in the frame from an index on**: it executes the first command from
there that can run, and without one it leaves the frame. -/
structure Proceeds (m : Machine) (t : ThreadHandle) (f : FrameHandle) (text : Nat → Option Command)
    (start : Nat) :
    Prop where
  runs : ∀ index command, Skips text start index → text index = some command →
    command.isRunnable = true → m.Executes t f index command
  ends : (∀ index command, start ≤ index → text index = some command → command.isRunnable = false) →
    m.Leaves t f

/-- It does not matter where it goes on among commands that cannot run. -/
theorem Proceeds.skip {text : Nat → Option Command} {start stop : Nat}
    (h : m.Proceeds t f text start) (hskips : Skips text start stop) :
    m.Proceeds t f text stop where
  runs index command hnext := h.runs index command (hskips.trans hnext)
  ends hnone := h.ends fun index command hstart hcommand => by
    rcases Nat.lt_or_ge index stop with hlt | hge
    · exact hskips.2 index command hstart hlt hcommand
    · exact hnone index command hge hcommand

/-- The line of a frame that a command is. -/
def lineOf (f : FrameHandle) (frame : Frame) (index : Nat) (command : Command) : Line :=
  ⟨frame.thread, f, index, frame.commands.length, ⟨frame.script, command.line⟩, command.tokens⟩

/-- The first command from the cursor on that can run is the line that runs next. -/
theorem runsNext_of_skips (hf : m.frames.get? f = some frame)
    (hskips : Skips (m.commandAt frame) frame.cursor index)
    (hcommand : m.commandAt frame index = some command) (hrunnable : command.isRunnable = true) :
    (lineOf f frame index command).RunsNext m := by
  obtain ⟨c, hc, hget⟩ := Option.bind_eq_some_iff.1 hcommand
  refine ⟨⟨frame, c, command, hf, rfl, hc, hget, rfl, rfl, rfl⟩, fun k hk => ?_,
    fun k found hk hfound => ?_, fun k i found hk hi hlt hfound => ?_⟩
  all_goals obtain rfl : frame = k := Option.some.inj (hf.symm.trans hk)
  · exact hskips.1
  · obtain rfl : command = found := Option.some.inj (hcommand.symm.trans hfound)
    exact hrunnable
  · exact hskips.2 i found hi hlt hfound

/-- A frame that is innermost and does not wait executes the first command from its cursor on that
can run. -/
theorem InOrder.executes (h : m.InOrder t (f :: below)) (hf : m.frames.get? f = some frame)
    (hpending : frame.pending = none) (hskips : Skips (m.commandAt frame) frame.cursor index)
    (hcommand : m.commandAt frame index = some command) (hrunnable : command.isRunnable = true) :
    m.Executes t f index command := by
  have hl := runsNext_of_skips hf hskips hcommand hrunnable
  have hrun : (prepare f).run m = ⟨.ok (.line (lineOf f frame index command)), m.readied f, []⟩ :=
    h.run_prepare_of_runsNext ((pendingAt_of_get? hf).trans hpending) hl
  obtain ⟨own, hown, rfl, -⟩ := h.frame f List.mem_cons_self
  rw [hf] at hown
  cases hown
  refine ⟨lineOf f frame index command, rfl, rfl, rfl, rfl, rfl, fun host w hw => ?_⟩
  subst hw
  rw [Host.run_stepInvocation h.stack, Host.step, Act.run_bind, World.run_liftM, hrun]
  rfl

/-- Unwinding takes the innermost frame away. -/
theorem Unwinds.top_gone (h : Unwinds t m signal m') (hsound : m.Sound)
    (hstack : m.stackAt t = some (f :: below)) :
    m'.frames.get? f = none := by
  rcases (h.popped hsound hstack).2 with ⟨-, hgone⟩ | ⟨-, -, hgone, -, -⟩ <;>
    exact hgone f List.mem_cons_self

/-- If there is none, it leaves the stack. -/
theorem InOrder.leaves (h : m.InOrder t (f :: below)) (hsound : m.Sound)
    (hf : m.frames.get? f = some frame) (hpending : frame.pending = none)
    (hnone : ∀ index command, frame.cursor ≤ index →
      m.commandAt frame index = some command → command.isRunnable = false) : m.Leaves t f := by
  rcases h.run_prepare hf hpending with ⟨l, rfl, -, hl, -⟩ | ⟨-, signal, m', hunwinds, hrun⟩
  · -- The line that would run next is a command that can run.
    obtain ⟨own, c, command, hown, -, hc, hget, -⟩ := hl.stands
    rw [hf] at hown
    cases hown
    have hcommand : m.commandAt frame l.index = some command := by
      rw [commandAt, hc, Option.bind_some, hget]
    have hfalse := hnone _ command (hl.cursor frame hf) hcommand
    rw [hl.runnable frame command hf hcommand] at hfalse
    cases hfalse
  · have hgone := hunwinds.top_gone (hsound.moves (edits_readied m f).moves) h.readied.stack
    refine ⟨signal, m', hunwinds, hgone, fun host w hw => ?_⟩
    subst hw
    rw [Host.run_stepInvocation h.stack, Host.step, Act.run_bind, World.run_liftM, hrun]
    rfl

/-- **An innermost frame goes on from its cursor.** -/
theorem Sound.proceeds (hsound : m.Sound) (hstack : m.stackAt t = some (f :: below))
    (hf : m.frames.get? f = some frame) (hpending : frame.pending = none) :
    m.Proceeds t f (m.commandAt frame) frame.cursor := by
  obtain ⟨thread, hthread, heq⟩ := Option.map_eq_some_iff.1 hstack
  have horder : m.InOrder t (f :: below) := heq ▸ hsound.inOrder hthread
  exact ⟨fun index command => horder.executes hf hpending, horder.leaves hsound hf hpending⟩

/-! ## Between two steps -/

/-- **What becomes of a machine between two steps**: nothing, or it is saved, and loaded where every
entity is known. -/
inductive Carried (m : Machine) : Machine → Prop where
  | stays : Carried m m
  | loaded {s : Setting} {bs : Bytes} {m₀ : Machine}
    (hkeeps : ∀ entity, (s.remap entity).isSome = true) (hsave : m.save = .ok bs)
    (hload : ((load s bs).run m₀).value = .ok ()) :
    Carried m ((load s bs).run m₀).state

/-- A load that knows every entity keeps every invocation. -/
theorem Sound.kept_of_keeps {ρ : EntityId → Option EntityId} {thread : Thread} (hsound : m.Sound)
    (hkeeps : ∀ entity, (ρ entity).isSome = true) (ht : m.threads.get? t = some thread) :
    m.Kept ρ t := by
  obtain ⟨target, hg, hmem⟩ := hsound.owned.target_of_thread ht
  refine ⟨thread, target, ht, hg, ?_⟩
  cases hentity : target.entity with
  | none =>
    rw [hsound.entity _ target hg hentity] at hmem
    cases hmem
  | some entity => exact hkeeps entity

/-- An invocation that is kept has its stack after the load. -/
theorem Restored.stackAt_of_kept {ρ : EntityId → Option EntityId} {stack : List FrameHandle}
    (h : Restored ρ m m') (hkept : m.Kept ρ t) (hstack : m.stackAt t = some stack) :
    m'.stackAt t = some stack := by
  obtain ⟨thread, ht, rfl⟩ := Option.map_eq_some_iff.1 hstack
  obtain ⟨thread', ht', heq⟩ := Option.map_eq_some_iff.1 ((h.thread t _).2 ⟨thread, ht, hkept, rfl⟩)
  have hsame : thread'.stack = thread.stack := (congrArg Thread.stack heq :)
  rw [stackAt, ht', Option.map_some, hsame]

/-- **A frame that is loaded goes on where it was.** -/
theorem Restored.proceeds {ρ : EntityId → Option EntityId} (h : Restored ρ m m') (hsound : m'.Sound)
    (hkept : m.Kept ρ t) (hstack : m.stackAt t = some (f :: below))
    (hf : m.frames.get? f = some frame) (hown : frame.thread = t) :
    m'.Proceeds t f (m.commandAt frame) frame.cursor := by
  obtain ⟨frame', hf', heq⟩ :=
    Option.map_eq_some_iff.1 ((h.frame f _).2 ⟨frame, hf, hown ▸ hkept, rfl⟩)
  have hcursor : frame'.cursor = frame.cursor := (congrArg Frame.cursor heq :)
  obtain ⟨old, hold, hrests⟩ := h.still f frame' hf'
  rw [hf] at hold
  cases hold
  rw [← hcursor, ← hrests.commandAt]
  exact hsound.proceeds (h.stackAt_of_kept hkept hstack) hf' (congrArg Frame.pending heq :)

/-- **An invocation goes on where its frame stands**, at once or in a machine that has loaded its
save. -/
theorem Carried.proceeds (h : Carried m m') (hsound : m.Sound)
    (hstack : m.stackAt t = some (f :: below)) (hf : m.frames.get? f = some frame)
    (hpending : frame.pending = none) :
    m'.Proceeds t f (m.commandAt frame) frame.cursor := by
  cases h with
  | stays => exact hsound.proceeds hstack hf hpending
  | @loaded s bs m₀ hkeeps hsave hload =>
    have hfits : m.Fits := by
      by_contra hfits
      obtain ⟨failure, herror, -⟩ := refused_of_not_fits hsave hfits s m₀
      rw [hload] at herror
      cases herror
    obtain ⟨-, hsound', hrestored⟩ := hsound.load_save hfits hsave s m₀
    obtain ⟨thread, ht, heq⟩ := Option.map_eq_some_iff.1 hstack
    obtain ⟨own, hown, hthread⟩ := hsound.owned.frame_of_stacked ht (heq ▸ List.mem_cons_self)
    rw [hf] at hown
    cases hown
    exact hrestored.proceeds hsound' (hsound.kept_of_keeps hkeeps ht) hstack hf hthread

/-- A frame whose cursor was moved goes on from there. -/
theorem Carried.proceeds_of_moveCursor (h : Carried (m.moveCursor f index) m') (hsound : m.Sound)
    (hstack : m.stackAt t = some (f :: below)) (hf : m.frames.get? f = some frame)
    (hpending : frame.pending = none) (hindex : index ≤ frame.commands.length) :
    m'.Proceeds t f (m.commandAt frame) index := by
  have hmoved : (m.moveCursor f index).frames.get? f = some (frame.moveTo index) := by
    rw [moveCursor, frames_modifyFrame, Table.get?_modify, if_pos rfl, hf]
    rfl
  have hcursor : (frame.moveTo index).cursor = index := Nat.min_eq_left hindex
  have hgoes := h.proceeds (hsound.moves (Edits.moves (edits_modifyFrame fun _ _ => .move _)))
    hstack hmoved hpending
  rwa [hcursor] at hgoes

/-- **Jumps land on labels.** After a jump to a label, the next step of the invocation executes the
first command of the same frame behind the label that can run, and leaves the frame if there is
none; without such a label it goes on behind the jump. The machine may be saved and loaded in
between. -/
theorem Reachable.jump_lands {η : Type} {h : Host η} {w : World η} {e : Executed} {label : String}
    (hreach : w.machine.Reachable)
    (he : w.machine.executed? h.toSetting (.stepInvocation t) = some e) (hjumps : e.Jumps label)
    (hf : w.machine.frames.get? e.line.frame = some frame)
    (hcarried : Carried ((h.perform (.stepInvocation t)).run w).state.machine m') :
    (∀ index, frame.gotos.find? (e.keyOf label) = some index →
        m'.Proceeds t e.line.frame (w.machine.commandAt frame) (index + 1)) ∧
      (frame.gotos.find? (e.keyOf label) = none →
        m'.Proceeds t e.line.frame (w.machine.commandAt frame) (e.line.index + 1)) := by
  have hsound := hreach.sound
  have hframe := hsound.frame _ _ hf
  obtain ⟨below, hstack, hpending⟩ := hsound.stack_of_executed he
  obtain ⟨-, -, hl, -⟩ := Host.perform_of_executed hsound he
  rw [pendingAt_of_get? hf] at hpending
  rw [Host.machine_of_jumps hsound he hjumps hf] at hcarried
  have hgoes : ∀ index ≤ frame.commands.length,
      (frame.gotos.find? (e.keyOf label)).getD (e.line.index + 1) = index →
      m'.Proceeds t e.line.frame (w.machine.commandAt frame) index := by
    rintro index hle rfl
    exact hcarried.proceeds_of_moveCursor hsound hstack hf hpending hle
  refine ⟨fun index hindex => ?_, fun hnone => ?_⟩
  · have hlands := hgoes index (hframe.goto_lt hindex).le (by rw [hindex, Option.getD_some])
    exact hlands.skip (hframe.skips_label hindex)
  · obtain ⟨own, c, -, hown, -, hc, -⟩ := hl.stands
    rw [hf] at hown
    cases hown
    exact hgoes _ (List.getElem?_eq_some_iff.1 hc).1 (by rw [hnone, Option.getD_none])

/-! ## A script that jumps -/

/-- The one script of a host: it jumps over a line, to the first of two labels. -/
def hurdle (_ : String) : Except Failure Located :=
  .ok ⟨"hurdle.scr", .line, "[start]\nif go == GO over\nsay no\n[over]\n[beyond]\nsay yes\n"⟩

def jumping : Host (List Call) := Host.fixed {} hurdle fun _ _ _ => .ok (.ready "")

/-- The script was started. -/
def before : World (List Call) := ((jumping.perform (.start ⟨7⟩ "hurdle")).run ⟨∅, []⟩).state

/-- The script has jumped. -/
def behind : Machine := ((jumping.perform (.stepInvocation ⟨1⟩)).run before).state.machine

theorem quiet_jumping : jumping.Quiet := by
  refine Host.quiet_fixed (fun name located hlocated => ?_) _
  cases hlocated
  decide +kernel

/-- The world in which the script was started is one that hosts can come to. -/
theorem reachable_before : before.machine.Reachable := by
  have hroom : before.machine.Roomy := roomy_of_free 9 (by decide) (by decide +kernel)
  unfold before at hroom ⊢
  exact .perform quiet_jumping .new hroom

theorem reachable_behind : behind.Reachable := by
  have hroom : behind.Roomy := roomy_of_free 9 (by decide) (by decide +kernel)
  unfold behind at hroom ⊢
  exact .perform quiet_jumping reachable_before hroom

/-- The script is saved and loaded after its jump, and says yes. -/
theorem hurdle_jump_lands : before.machine.Reachable ∧
    ∃ e frame bs, before.machine.executed? {} (.stepInvocation ⟨1⟩) = some e ∧ e.Jumps "over" ∧
      before.machine.frames.get? e.line.frame = some frame ∧
      frame.gotos.find? (e.keyOf "over") = some 3 ∧
      behind.save = .ok bs ∧ ((load {} bs).run ∅).value = .ok () ∧
      ((load {} bs).run ∅).state.Executes ⟨1⟩ e.line.frame 5 ⟨6, ["say", "yes"]⟩ := by
  have hline : ((before.machine.executed? {} (.stepInvocation ⟨1⟩)).map fun e => (e.line.frame,
      e.line.tokens, e.keyword?, e.line.holds e.setting e.machine, e.keyOf "over")) =
        some (⟨1⟩, ["if", "go", "==", "GO", "over"], some .cond, true, "over") := by
    decide +kernel
  have hframe : ((before.machine.frames.get? ⟨1⟩).map fun frame => (frame.gotos.find? "over",
      (before.machine.commandAt frame 4).map Command.isRunnable,
      before.machine.commandAt frame 5)) =
        some (some 3, some false, some ⟨6, ["say", "yes"]⟩) := by
    decide +kernel
  have hfits : behind.Fits := by decide +kernel
  obtain ⟨e, he, hfacts⟩ := Option.map_eq_some_iff.1 hline
  obtain ⟨hown, htokens, hkeyword, hholds, hkey⟩ : _ ∧ _ ∧ _ ∧ _ ∧ _ := by
    simpa only [Prod.mk.injEq] using hfacts
  obtain ⟨frame, hf, hfacts'⟩ := Option.map_eq_some_iff.1 hframe
  obtain ⟨hlabel, hbeyond, hyes⟩ : _ ∧ _ ∧ _ := by simpa only [Prod.mk.injEq] using hfacts'
  rw [← hown] at hf
  rw [← hkey] at hlabel
  have hjumps : e.Jumps "over" := .cond hkeyword htokens hholds
  have hskips : Skips (before.machine.commandAt frame) 4 5 := by
    refine ⟨by decide, fun i command hi hlt hcommand => ?_⟩
    obtain rfl : i = 4 := by omega
    rwa [hcommand, Option.map_some, Option.some.injEq] at hbeyond
  obtain ⟨bs, hsave⟩ :=
    exists_save hfits (reachable_behind.sound.storable hfits) (by decide +kernel)
  have hload := (reachable_behind.sound.load_save hfits hsave {} ∅).1
  obtain ⟨hlands, -⟩ := reachable_before.jump_lands (h := jumping) he hjumps hf
    (.loaded (fun _ => rfl) hsave hload)
  exact ⟨reachable_before, e, frame, bs, he, hjumps, hf, hlabel, hsave, hload,
    (hlands 3 hlabel).runs 5 _ hskips hyes (by decide +kernel)⟩

end Machine

end StepScript
