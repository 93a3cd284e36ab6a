import StepScript.Proofs.Host.Jump
import StepScript.Proofs.Session.Pieces

/-!
# Proofs/Session/Forward — scripts that only go forward finish in time

A script whose jumps all lead forward, and which enters neither subroutines nor other scripts, runs
through its commands in their order. Each step executes a command behind the ones executed before,
until none is left; the last step finds that out and ends the invocation. So the run takes one step
more than it executes commands, and it executes none of them twice. This does not depend on what the
commands do, nor on whether they fail.

* `Script.OneWay` — the scripts that only go forward.
* `Machine.lt_landing` — a line of such a script leads behind itself.
* `Machine.Playing` — the invocation plays the script, in one frame at one index.
* `Machine.Underway` — the invocation has come to an index of the script; `Underway.step`,
  `Underway.run`.
* `Machine.Reachable.oneWay_finishes` — from a start to the end.
-/

namespace StepScript

/-! ## Commands that lead forward -/

namespace Command

variable {c : Command} {gotos : LabelMap} {index : Nat}

/-- The command of the language that the first token spells. -/
def keyword? (c : Command) : Option Keyword := c.tokens.head?.bind Keyword.ofName?

/-- The label that a `goto` or an `if` names. -/
def operand? (c : Command) : Option String :=
  match c.keyword?, c.tokens with
  | some .goto, [_, label] => some label
  | some .cond, [_, _, _, _, label] => some label
  | _, _ => none

/-- **A command that leads forward** from its index: it is written out, it enters neither a
subroutine nor a script, and the label that it jumps to is declared behind it, or not at all. -/
structure OneWay (gotos : LabelMap) (index : Nat) (c : Command) : Prop where
  literal : ∀ first ∈ c.tokens.head?, TokenRef.of first = .literal first
  inside : c.keyword? ≠ some .gosub ∧ c.keyword? ≠ some .call
  ahead : ∀ label ∈ c.operand?, TokenRef.of label = .literal label ∧
    ∀ target ∈ gotos.find? (labelKey label), index < target

instance : Decidable (c.OneWay gotos index) :=
  decidable_of_iff
    ((∀ first ∈ c.tokens.head?, TokenRef.of first = .literal first) ∧
      (c.keyword? ≠ some .gosub ∧ c.keyword? ≠ some .call) ∧
      ∀ label ∈ c.operand?, TokenRef.of label = .literal label ∧
        ∀ target ∈ gotos.find? (labelKey label), index < target)
    ⟨fun h => ⟨h.1, h.2.1, h.2.2⟩, fun h => ⟨h.literal, h.inside, h.ahead⟩⟩

end Command

namespace Script

variable {script : Script} {index next : Nat} {command : Command}

/-- **A script that only goes forward.** -/
def OneWay (script : Script) : Prop := ∀ p ∈ script.commands.zipIdx, p.1.OneWay script.gotos p.2

instance : Decidable script.OneWay := inferInstanceAs (Decidable (∀ p ∈ script.commands.zipIdx, _))

theorem OneWay.of_getElem? (h : script.OneWay) (hcommand : script.commands[index]? = some command) :
    command.OneWay script.gotos index :=
  h (command, index) (List.mk_mem_zipIdx_iff_getElem?.2 hcommand)

/-- How many commands can run from an index on. -/
def runnableFrom (script : Script) (index : Nat) : Nat :=
  (script.commands.drop index).countP Command.isRunnable

/-- From the beginning on, all commands that can run are still to run. -/
theorem runnableFrom_zero (script : Script) : script.runnableFrom 0 = script.runnableCount := rfl

/-- A command that can run is left behind. -/
theorem runnableFrom_lt {place : Nat} (hcommand : script.commands[place]? = some command)
    (hrunnable : command.isRunnable = true) (hindex : index ≤ place) (hnext : place < next) :
    script.runnableFrom next < script.runnableFrom index := by
  obtain ⟨hlt, rfl⟩ := List.getElem?_eq_some_iff.1 hcommand
  have hbefore :=
    (List.drop_sublist_drop_left script.commands hindex).countP_le (p := Command.isRunnable)
  have hafter :=
    (List.drop_sublist_drop_left script.commands hnext).countP_le (p := Command.isRunnable)
  rw [List.drop_eq_getElem_cons hlt, List.countP_cons_of_pos hrunnable] at hbefore
  rw [runnableFrom, runnableFrom]
  exact Nat.lt_of_lt_of_le (Nat.lt_succ_of_le hafter) hbefore

end Script

namespace Machine

variable {m m' : Machine} {s : Setting} {l : Line} {frame : Frame} {c : Command} {label : String}

/-! ## Where a line leads -/

/-- What a line is executed as is what it spells. -/
theorem keyword?_of_literal (htokens : l.tokens = c.tokens)
    (hliteral : ∀ first ∈ c.tokens.head?, TokenRef.of first = .literal first) :
    l.keyword? s m = c.keyword? := by
  rw [Line.keyword?, Command.keyword?, htokens]
  cases hfirst : c.tokens.head? with
  | none => rfl
  | some first => rw [Option.bind_some, Option.bind_some, nameOf_of_literal (hliteral first hfirst)]

/-- The label that a line jumps to is an operand of its command. -/
theorem operand?_of_jumps (h : l.Jumps s m label) (htokens : l.tokens = c.tokens)
    (hkeyword : l.keyword? s m = c.keyword?) : c.operand? = some label := by
  rw [Command.operand?, ← hkeyword, ← htokens]
  cases h with
  | goto hgoto hlist => rw [hgoto, hlist]
  | cond hcond hlist => rw [hcond, hlist]

/-- In a script of one way, a jump leads forward. -/
theorem lt_landing_of_jumps (h : l.Jumps s m label) (hway : c.OneWay frame.gotos l.index)
    (htokens : l.tokens = c.tokens) (hf : m.frames.get? l.frame = some frame) :
    l.index < l.landing s m := by
  have hoperand := operand?_of_jumps h htokens (keyword?_of_literal htokens hway.literal)
  obtain ⟨hliteral, hahead⟩ := hway.ahead label hoperand
  rw [Line.landing, (run_plan_of_jumps h hf).1, nameOf_of_literal hliteral]
  cases hfind : frame.gotos.find? (labelKey label) with
  | none => exact Nat.lt_succ_self l.index
  | some target => exact hahead target hfind

/-- A `goto` with one operand is a jump; any other is passed by. -/
theorem landing_of_goto (h : l.keyword? s m = some .goto) :
    (∃ first label, l.tokens = [first, label]) ∨ l.landing s m = l.index + 1 := by
  rw [landing_of_keyword h, planKeyword, Act.run_map]
  unfold runGoto
  split
  · next first label htokens => exact .inl ⟨first, label, htokens⟩
  · exact .inr rfl

/-- A condition that holds is that of a line with five tokens. -/
theorem tokens_of_holds (h : l.holds s m = true) :
    ∃ first left operator right label, l.tokens = [first, left, operator, right, label] := by
  unfold Line.holds at h
  split at h
  · next htokens => exact ⟨_, _, _, _, _, htokens⟩
  · cases h

/-- **A command that leads forward** leads behind itself, whatever the variables are. -/
theorem lt_landing (hway : c.OneWay frame.gotos l.index) (htokens : l.tokens = c.tokens)
    (hf : m.frames.get? l.frame = some frame) (hreturns : frame.returns = [])
    (hcount : l.index < l.count) :
    l.index < l.landing s m := by
  by_cases hdiverts : l.Diverts s m
  · cases hdiverts with
    | gosub h =>
      exact absurd ((keyword?_of_literal htokens hway.literal).symm.trans h) hway.inside.1
    | goto h =>
      rcases landing_of_goto h with ⟨first, label, hlist⟩ | hnext
      · exact lt_landing_of_jumps (.goto h hlist) hway htokens hf
      · omega
    | cond h hholds =>
      obtain ⟨first, left, operator, right, label, hlist⟩ := tokens_of_holds hholds
      exact lt_landing_of_jumps (.cond h hlist hholds) hway htokens hf
    | endsub h hown hopen =>
      rw [hf] at hown
      cases hown
      exact absurd hreturns hopen
  · rcases landing_cases hf hdiverts with hnext | hend | hbegins
    · omega
    · omega
    · -- the body of a subroutine is passed by, or there is no end to it
      rcases landing_of_beginsub hbegins hf with ⟨k, hk, -, -, hlanding⟩ | ⟨-, hlanding⟩ <;> omega

/-- No subroutine is opened. -/
theorem reopened_nil (hgosub : l.keyword? s m ≠ some .gosub) : l.reopened s m [] = [] := by
  unfold Line.reopened
  split
  · next h => exact absurd h hgosub
  · rfl
  · rfl

/-! ## The script of a frame -/

/-- **The frame plays the script**: its commands are those of the script, and it finds the labels of
the script. -/
def Plays (m : Machine) (f : FrameHandle) (script : Script) : Prop :=
  ∃ frame, m.frames.get? f = some frame ∧
    frame.commands.map m.commands.get? = script.commands.map some ∧ frame.gotos = script.gotos

theorem FrameEdit.gotos {frame' : Frame} (h : m.FrameEdit frame frame') :
    frame'.gotos = frame.gotos := by
  cases h <;> rfl

theorem Edit.plays {f : FrameHandle} {script : Script} (h : Edit m m') (hplays : m.Plays f script) :
    m'.Plays f script := by
  obtain ⟨own, hown, hcommands, hgotos⟩ := hplays
  cases h with
  | @frame e old u hold hu =>
    by_cases heq : f = e
    · subst heq
      rw [hown] at hold
      cases hold
      refine ⟨u own, ?_, hu.links.2 ▸ hcommands, hu.gotos.trans hgotos⟩
      rw [frames_modifyFrame, Table.get?_modify, if_pos rfl, hown, Option.map_some]
    · exact ⟨own, by rw [frames_modifyFrame, Table.get?_modify, if_neg heq, hown],
        hcommands, hgotos⟩
  | threadVariable => exact ⟨own, hown, hcommands, hgotos⟩
  | targetVariable => exact ⟨own, hown, hcommands, hgotos⟩
  | globalVariable => exact ⟨own, hown, hcommands, hgotos⟩

/-- A frame plays the same script after edits. -/
theorem Edits.plays {f : FrameHandle} {script : Script} (h : Edits m m')
    (hplays : m.Plays f script) :
    m'.Plays f script := by
  induction h with
  | refl => exact hplays
  | tail _ hedit ih => exact hedit.plays ih

end Machine

/-! ## One step -/

/-- **The host answers at once**: a function that it is asked for has a result, or the call
fails. -/
def Host.Answers {η : Type} (h : Host η) : Prop :=
  ∀ call w, ((h.dispatch call).run w).value ≠ .ok .pending

/-- The line is a command of the script that can run, and the frame executes it. -/
structure Executed.Of (e : Executed) (f : FrameHandle) (script : Script) : Prop where
  frame : e.line.frame = f
  command : ∃ command, script.commands[e.line.index]? = some command ∧ command.isRunnable = true ∧
    e.line.tokens = command.tokens ∧ e.line.source.line = command.line

namespace Machine

/-- **The invocation plays the script** in its only frame, and does not wait for the host. -/
structure Playing (m : Machine) (t : ThreadHandle) (f : FrameHandle) (script : Script) : Prop where
  reachable : m.Reachable
  stack : m.stackAt t = some [f]
  waits : m.pendingAt f = none
  plays : m.Plays f script

/-- **It has come to an index of the script**, and no subroutine is open. -/
structure Underway (m : Machine) (t : ThreadHandle) (f : FrameHandle) (script : Script)
    (index : Nat) : Prop
    extends Playing m t f script where
  stands : ∀ frame, m.frames.get? f = some frame → frame.cursor = index ∧ frame.returns = []

end Machine

namespace Host

variable {η : Type} {h : Host η} {w : World η} {t : ThreadHandle} {f : FrameHandle}

open Machine

/-- **A line that enters no script** changes contents only, and is followed by more work if the host
answers at once. -/
theorem Stepped.goes_on {value : Except Failure Signal} {m' : Machine}
    (hstep : h.Stepped t f w value m') (hanswers : h.Answers)
    (hline : ∃ l : Line, l.frame = f ∧ l.RunsNext w.machine)
    (hinside : ∀ (l : Line) name args, l.frame = f → l.RunsNext w.machine →
      ¬ l.Enters h.toSetting w.machine name args) : value = .ok .pending ∧ Edits w.machine m' := by
  have hready := edits_readied w.machine f
  cases hstep with
  | unwound hnone =>
    obtain ⟨l, hframe, hl⟩ := hline
    exact absurd hl (hnone l hframe)
  | went _ _ hchanges flow =>
    exact ⟨rfl, hready.trans (hchanges.edits.trans (edits_follow _ flow _))⟩
  | @asked l name args assignTo answer hat hl _ hanswer =>
    obtain ⟨-, rfl⟩ := hat
    refine ⟨?_, hready.trans (edits_takeAnswer (fun _ => hready.line hl.stands) _ _ _)⟩
    rcases answer with failure | value | _
    · rw [(run_takeAnswer_error ..).1]
    · rw [(run_takeAnswer_ready ..).1]
    · exact absurd hanswer (hanswers _ _)
  | entered hat hl henters => exact absurd henters (hinside _ _ _ hat.2 hl)
  | refused hat hl henters => exact absurd henters (hinside _ _ _ hat.2 hl)

end Host

namespace Machine

variable {η : Type} {h : Host η} {w : World η} {t : ThreadHandle} {f : FrameHandle}
  {script : Script} {index : Nat}

/-- The line that runs next is a command of the script, at the cursor or behind it. -/
theorem Plays.line {m : Machine} {l : Line} (hplays : m.Plays f script) (hl : l.RunsNext m)
    (hframe : l.frame = f) :
    ∃ frame command, m.frames.get? f = some frame ∧ frame.gotos = script.gotos ∧
      frame.cursor ≤ l.index ∧ l.index < l.count ∧ script.commands[l.index]? = some command ∧
      command.isRunnable = true ∧
      l.tokens = command.tokens ∧ l.source.line = command.line := by
  subst hframe
  obtain ⟨frame, hf, hcommands, hgotos⟩ := hplays
  obtain ⟨own, c, command, hown, -, hc, hcommand, hcount, hsource, htokens⟩ := hl.stands
  rw [hf] at hown
  cases hown
  have htext : m.commandAt frame l.index = some command := by
    rw [commandAt, hc, Option.bind_some, hcommand]
  refine ⟨frame, command, hf, hgotos, hl.cursor frame hf,
    hcount ▸ (List.getElem?_eq_some_iff.1 hc).1, ?_, hl.runnable frame command hf htext,
    htokens, by rw [hsource]⟩
  rw [← FrameSound.commandAt_eq _ hcommands, htext]

/-- No line of a script that only goes forward enters another script. -/
theorem Plays.not_enters {m : Machine} {l : Line} {s : Setting} {name : String} {args : List String}
    (hplays : m.Plays f script) (hway : script.OneWay) (hframe : l.frame = f) (hl : l.RunsNext m) :
    ¬ l.Enters s m name args := by
  rintro ⟨hlist, hcall⟩
  obtain ⟨frame, command, -, -, -, -, hcommand, -, htokens, -⟩ := hplays.line hl hframe
  have hone := hway.of_getElem? hcommand
  refine hone.inside.2 ?_
  rw [← keyword?_of_literal (s := s) (m := m) htokens hone.literal, Line.keyword?, hlist]
  exact hcall

/-- An invocation with more work to do does not wait. -/
theorem pendingAt_of_standing {m : Machine} {below : List FrameHandle}
    (hstack : m.stackAt t = some (f :: below)) (hstanding : m.standing t = .pending) :
    m.pendingAt f = none := by
  rw [standing_of_stack hstack] at hstanding
  cases hpending : m.pendingAt f with
  | none => rfl
  | some call =>
    rw [hpending] at hstanding
    cases hstanding

/-- **A line is executed**, and the invocation goes on playing the script: the line changes contents
only. -/
theorem Playing.goes_on {l : Line} (hplaying : w.machine.Playing t f script) (hq : h.Quiet)
    (hanswers : h.Answers) (hway : script.OneWay) (hframe : l.frame = f)
    (hl : l.RunsNext w.machine) :
    ((h.stepInvocation t).run w).value = .ok .pending ∧
      ((h.stepInvocation t).run w).state.machine.Playing t f script := by
  obtain ⟨hsound, hroomy⟩ := hplaying.reachable.sound_and_roomy
  obtain ⟨frame, hf, -⟩ := hplaying.plays
  have hstepped :=
    (hq.stepped hsound hplaying.stack hf ((pendingAt_of_get? hf).symm.trans hplaying.waits)).1
  rw [← Host.run_stepInvocation hplaying.stack] at hstepped
  obtain ⟨hvalue, hedits⟩ :=
    hstepped.goes_on hanswers ⟨l, hframe, hl⟩ fun _ _ _ => hplaying.plays.not_enters hway
  have hstack := (hedits.sameLinks.stackAt t).trans hplaying.stack
  have hroom : ((h.perform (.stepInvocation t)).run w).state.machine.Roomy :=
    hedits.shrinks.roomy hroomy
  refine ⟨hvalue, .perform hq hplaying.reachable hroom, hstack, ?_, hedits.plays hplaying.plays⟩
  -- The signal is true, and it says that there is more work.
  rcases hstepped.truthful hsound hplaying.reachable.topWaits hplaying.stack hplaying.waits with
    hstanding | ⟨failure, hfails, -⟩
  · exact pendingAt_of_standing hstack (Except.ok.inj (hstanding.symm.trans hvalue))
  · rw [hvalue] at hfails
    cases hfails

/-- **A command is executed**, and the invocation goes on behind it. -/
theorem Underway.execute {e : Executed} (hunder : w.machine.Underway t f script index)
    (hq : h.Quiet) (hanswers : h.Answers) (hway : script.OneWay)
    (he : w.machine.executed? h.toSetting (.stepInvocation t) = some e) :
    ((h.stepInvocation t).run w).value = .ok .pending ∧ e.Of f script ∧ index ≤ e.line.index ∧
      e.line.index < e.landing ∧
      ((h.stepInvocation t).run w).state.machine.Underway t f script e.landing := by
  have hsound := hunder.reachable.sound
  obtain ⟨-, hmachine, hl, -⟩ := Host.perform_of_executed hsound he
  have hframe : e.line.frame = f := by
    obtain ⟨below, hstack, -⟩ := hsound.stack_of_executed he
    rw [hunder.stack] at hstack
    cases hstack
    rfl
  obtain ⟨hvalue, hplaying⟩ := hunder.goes_on hq hanswers hway hframe hl
  obtain ⟨frame, command, hf, hgotos, hcursor, hcount, hcommand, hrunnable, htokens, hsource⟩ :=
    hunder.plays.line hl hframe
  obtain ⟨rfl, hreturns⟩ := hunder.stands frame hf
  have hone := hway.of_getElem? hcommand
  have hready := get?_frames_readied (hsound.frame _ _ hf) hf
  rw [← hframe, ← hmachine] at hready
  have hforward : e.line.index < e.landing :=
    lt_landing (hgotos.symm ▸ hone) htokens hready hreturns hcount
  have hclosed : e.reopened frame.returns = [] := by
    rw [hreturns, Executed.reopened]
    refine reopened_nil fun hgosub => hone.inside.1 ?_
    rw [← hgosub, keyword?_of_literal htokens hone.literal]
  have hroom : ((h.perform (.stepInvocation t)).run w).state.machine.Roomy :=
    hplaying.reachable.sound_and_roomy.2
  obtain ⟨last, hlast, -, hplace, hopen⟩ := hq.standsAt_perform hsound he (hframe ▸ hf) hroom
  refine ⟨hvalue, ⟨hframe, command, hcommand, hrunnable, htokens, hsource⟩, hcursor, hforward,
    hplaying, fun frame' hf' => ?_⟩
  obtain rfl : last = frame' := Option.some.inj (hlast.symm.trans (hframe ▸ hf'))
  exact ⟨hplace, hopen.trans hclosed⟩

/-- **One step of a script that only goes forward**: it finds nothing left to run and finishes, or
it executes a command and goes on behind it. -/
theorem Underway.step (hunder : w.machine.Underway t f script index) (hq : h.Quiet)
    (hanswers : h.Answers) (hway : script.OneWay) :
    ((h.stepInvocation t).run w).value = .ok .finished ∧
        w.machine.executed? h.toSetting (.stepInvocation t) = none ∨
      ((h.stepInvocation t).run w).value = .ok .pending ∧
        ∃ e, w.machine.executed? h.toSetting (.stepInvocation t) = some e ∧ e.Of f script ∧
          index ≤ e.line.index ∧ e.line.index < e.landing ∧
          ((h.stepInvocation t).run w).state.machine.Underway t f script e.landing := by
  have hsound := hunder.reachable.sound
  obtain ⟨frame, hf, -⟩ := hunder.plays
  have hpending : frame.pending = none := (pendingAt_of_get? hf).symm.trans hunder.waits
  obtain ⟨thread, hthread, hstack⟩ := Option.map_eq_some_iff.1 hunder.stack
  have horder : w.machine.InOrder t [f] := hstack ▸ hsound.inOrder hthread
  have hexecuted : w.machine.executed? h.toSetting (.stepInvocation t) =
      w.machine.lineAt? h.toSetting f := by
    rw [executed?, frameOf_of_stackAt hunder.stack, Option.bind_some]
  rcases horder.run_prepare hf hpending with ⟨l, -, -, -, hrun⟩ | ⟨-, signal, m', hunwinds, hrun⟩
  · right
    have he : w.machine.executed? h.toSetting (.stepInvocation t) =
        some ⟨h.toSetting, w.machine.readied f, l⟩ := by rw [hexecuted, lineAt?, hrun]
    obtain ⟨hvalue, hrest⟩ := hunder.execute hq hanswers hway he
    exact ⟨hvalue, _, he, hrest⟩
  · left
    have hstack' : (w.machine.readied f).stackAt t = some [f] :=
      ((edits_readied w.machine f).sameLinks.stackAt t).trans hunder.stack
    have hsignal : signal = .finished := by
      cases hunwinds with
      | finish => rfl
      | stop hlong => rw [hstack'] at hlong; cases hlong
      | next hlong => rw [hstack'] at hlong; cases hlong
    rw [hexecuted, lineAt?, hrun, Host.run_stepInvocation hunder.stack, Host.step, Act.run_bind,
      World.run_liftM, hrun, hsignal]
    exact ⟨rfl, rfl⟩

end Machine

/-! ## Runs -/

namespace Host

variable {η : Type}

/-- **The lines that an invocation executes** in a number of steps. -/
def executions (h : Host η) (t : ThreadHandle) : Nat → World η → List Executed
  | 0, _ => []
  | n + 1, w => (w.machine.executed? h.toSetting (.stepInvocation t)).toList ++
      h.executions t n ((h.stepInvocation t).run w).state

end Host

namespace Machine

variable {η : Type} {h : Host η} {w : World η} {t : ThreadHandle} {f : FrameHandle}
  {script : Script} {index : Nat}

/-- **A run of a script that only goes forward** takes one step for every line that it executes, and
one to finish. The lines come in the order of the script. -/
theorem Underway.run (hunder : w.machine.Underway t f script index) (hq : h.Quiet)
    (hanswers : h.Answers) (hway : script.OneWay) {left : Nat}
    (hleft : script.runnableFrom index < left) (taken : Nat) (log : List Diagnostic) :
    ∃ es, h.executions t (es.length + 1) w = es ∧ es.length ≤ script.runnableFrom index ∧
      ((h.runFrom t left taken log).run w).value = .ok ⟨taken + es.length + 1, .finished⟩ ∧
      es.Pairwise (fun e e' => e.line.index < e'.line.index) ∧ ∀ e ∈ es, index ≤ e.line.index ∧
      e.Of f script := by
  induction left generalizing w index taken log with
  | zero => exact absurd hleft (Nat.not_lt_zero _)
  | succ left ih =>
    rcases hunder.step hq hanswers hway with
      ⟨hvalue, hnone⟩ | ⟨hvalue, e, he, hof, hindex, hforward, hnext⟩
    · have hends : ending? ((h.stepInvocation t).run w).value = some (.ok .finished) := by
        rw [hvalue]
        rfl
      refine ⟨[], by rw [Host.executions, hnone]; rfl, Nat.zero_le _, ?_, .nil,
        List.forall_mem_nil _⟩
      rw [h.runFrom_of_ending t hends]
      rfl
    · obtain ⟨command, hcommand, hrunnable, -⟩ := hof.command
      have hfewer := Script.runnableFrom_lt hcommand hrunnable hindex hforward
      obtain ⟨es, hes, hlength, hreport, hpairwise, hlines⟩ :=
        ih hnext (by omega) (taken + 1) (((h.stepInvocation t).run w).log.reverse ++ log)
      have hbehind : ∀ e' ∈ es, e.line.index < e'.line.index :=
        fun e' he' => Nat.lt_of_lt_of_le hforward (hlines e' he').1
      refine ⟨e :: es, ?_, ?_, ?_, List.pairwise_cons.2 ⟨hbehind, hpairwise⟩,
        List.forall_mem_cons.2 ⟨⟨hindex, hof⟩, fun e' he' => ⟨?_, (hlines e' he').2⟩⟩⟩
      · rw [List.length_cons, Host.executions, he, hes]
        rfl
      · rw [List.length_cons]
        omega
      · rw [h.runFrom_of_pending t hvalue, hreport, List.length_cons]
        congr 2
        omega
      · exact hindex.trans (hbehind e' he').le

/-- **A script that was started** has come to its first index. -/
theorem Reachable.underway_start {entity : EntityId} {name : String} {warnings : List Diagnostic}
    (hreach : w.machine.Reachable) (hq : h.Quiet)
    (hscript : h.script name { w with machine := w.machine.opened entity name } =
      .ok (script, warnings))
    (hroom : ((h.start entity name).run w).state.machine.Roomy) :
    ((h.start entity name).run w).value = .ok w.machine.threads.fresh ∧
      ((h.start entity name).run w).state.machine.Underway w.machine.threads.fresh
        w.machine.frames.fresh script 0 := by
  obtain ⟨hsound, hroomy⟩ := hreach.sound_and_roomy
  have hperform : ((h.perform (.start entity name)).run w).state.machine.Roomy := hroom
  have hreach' : ((h.start entity name).run w).state.machine.Reachable :=
    .perform hq hreach hperform
  have hrun := hq.run_start hsound.proper hroomy entity name
  rw [hscript] at hrun
  rw [hrun] at hroom hreach' ⊢
  have hnew :=
    (get?_frames_started (m := w.machine) entity name script w.machine.frames.fresh).trans
      (if_pos rfl)
  refine ⟨rfl, ⟨hreach', ?_, pendingAt_of_get? hnew, _, hnew, ?_, rfl⟩, fun frame hframe => ?_⟩
  · rw [stackAt, get?_threads_started, if_pos rfl]
    rfl
  · exact Table.map_get?_createAll hsound.proper.commands hroom.commands
  · obtain rfl := Option.some.inj (hnew.symm.trans hframe)
    exact ⟨rfl, rfl⟩

/-- **Scripts that only go forward finish in time.** Wherever such a script is started, by whatever
host that answers at once, the run ends with the script after at most one step more than it has
commands to run. Its lines are commands of the script, each behind the one before, so no command is
executed twice; and besides the last step, which finds nothing left to run, every step executes
one. -/
theorem Reachable.oneWay_finishes {entity : EntityId} {name : String} {located : Located}
    {warnings : List Diagnostic} {limit : Nat} (hreach : w.machine.Reachable) (hq : h.Quiet)
    (hanswers : h.Answers)
    (hload : ((h.load name).run { w with machine := w.machine.opened entity name }).value =
      .ok located)
    (hread : Script.read name located.dialect located.text = .ok (script, warnings))
    (hway : script.OneWay) (hroom : ((h.start entity name).run w).state.machine.Roomy)
    (hlimit : script.runnableCount < limit) :
    ∃ t f steps, ((h.start entity name).run w).value = .ok t ∧
      ((h.runUntilIdle t limit).run ((h.start entity name).run w).state).value =
        .ok ⟨steps, .finished⟩ ∧
      steps ≤ script.runnableCount + 1 ∧
      (h.executions t steps ((h.start entity name).run w).state).length + 1 = steps ∧
      (h.executions t steps ((h.start entity name).run w).state).Pairwise
        (fun e e' => e.line.index < e'.line.index) ∧
      ∀ e ∈ h.executions t steps ((h.start entity name).run w).state, e.Of f script := by
  have hscript : h.script name { w with machine := w.machine.opened entity name } =
      .ok (script, warnings) := by
    rw [Host.script, hload]
    exact hread
  obtain ⟨hvalue, hunder⟩ := hreach.underway_start hq hscript hroom
  rw [← script.runnableFrom_zero] at hlimit ⊢
  obtain ⟨es, hes, hlength, hreport, hpairwise, hlines⟩ := hunder.run hq hanswers hway hlimit 0 []
  rw [Nat.zero_add] at hreport
  refine ⟨_, w.machine.frames.fresh, es.length + 1, hvalue, ?_, Nat.succ_le_succ hlength, ?_⟩
  · rw [h.run_runUntilIdle _ (Nat.zero_lt_of_lt hlimit), hreport]
  · rw [hes]
    exact ⟨rfl, hpairwise, fun e he => (hlines e he).2⟩

/-! ## A detour -/

/-- The one script of a host: jumps forward, to labels that are there and to one that is not, a
subroutine that nobody opens, an end without a beginning, lines that fail, and an early end. -/
def detour (_ : String) : Except Failure Located :=
  .ok ⟨"detour.scr", .line,
    "goto b\nsay a\n[b]\nbeginsub c\nendsub\nif 1 < 2 d\nsay a\n[d]\ngoto e\nset $x 1 / 0\n" ++
    "endsub\nsay a\nreturn\nsay a\n"⟩

/-- The host refuses every call. -/
def detouring : Host (List Call) :=
  Host.fixed {} detour fun name _ _ => .error (Cause.noFunctions name).failure

/-- The script is started beside another one. -/
def setOut : Outcome (World (List Call)) (Except Failure ThreadHandle) :=
  (detouring.start ⟨8⟩ "detour").run before

/-- Of the twelve commands of the script eight are executed, in nine steps. -/
theorem detour_finishes : before.machine.Reachable ∧ detouring.Quiet ∧ detouring.Answers ∧
    ∃ located script warnings, detour "detour" = .ok located ∧
      Script.read "detour" located.dialect located.text = .ok (script, warnings) ∧ script.OneWay ∧
      script.runnableCount = 12 ∧ setOut.value = .ok ⟨2⟩ ∧
      ((detouring.runUntilIdle ⟨2⟩ 13).run setOut.state).value = .ok ⟨9, .finished⟩ ∧
      (detouring.executions ⟨2⟩ 9 setOut.state).length = 8 ∧
      ∃ f, ∀ e ∈ detouring.executions ⟨2⟩ 9 setOut.state, e.Of f script := by
  have hquiet : detouring.Quiet := by
    refine Host.quiet_fixed (fun name located hlocated => ?_) _
    cases hlocated
    decide +kernel
  have hanswers : detouring.Answers := by
    intro call w hpending
    cases hpending
  obtain ⟨hstart, hrun, hfree⟩ : setOut.value = .ok ⟨2⟩ ∧
      ((detouring.runUntilIdle ⟨2⟩ 13).run setOut.state).value = .ok ⟨9, .finished⟩ ∧
      (setOut.state.machine.targets.contains ⟨30⟩ || setOut.state.machine.threads.contains ⟨30⟩ ||
        setOut.state.machine.frames.contains ⟨30⟩ || setOut.state.machine.commands.contains ⟨30⟩) =
          false := by
    decide +kernel
  have hroom : setOut.state.machine.Roomy := roomy_of_free 30 (by decide) hfree
  have hout : setOut = (detouring.start ⟨8⟩ "detour").run before := by rw [setOut]
  cases hlocated : detour "detour" with
  | error failure => cases hlocated
  | ok located =>
    have hfacts : ((Script.read "detour" located.dialect located.text).toOption.map fun r =>
        (decide r.1.OneWay, r.1.runnableCount)) = some (true, 12) := by
      cases hlocated
      decide +kernel
    cases hread : Script.read "detour" located.dialect located.text with
    | error failure =>
      rw [hread] at hfacts
      cases hfacts
    | ok r =>
      obtain ⟨script, warnings⟩ := r
      rw [hread] at hfacts
      obtain ⟨hway, hcount⟩ := Prod.mk.inj (Option.some.inj hfacts)
      have hlimit : script.runnableCount < 13 := hcount ▸ Nat.lt_succ_self 12
      have hfinishes :=
        reachable_before.oneWay_finishes hquiet hanswers hlocated hread (of_decide_eq_true hway)
        (hout ▸ hroom) hlimit
      rw [← hout] at hfinishes
      obtain ⟨t, f, steps, hvalue, hreport, -, hlength, -, hlines⟩ := hfinishes
      rw [hstart] at hvalue
      cases hvalue
      rw [hrun] at hreport
      obtain rfl : 9 = steps := congrArg RunReport.steps (Except.ok.inj hreport)
      refine ⟨reachable_before, hquiet, hanswers, located, script, warnings, rfl, hread,
        of_decide_eq_true hway, hcount, hstart, hrun, ?_, f, hlines⟩
      omega

end Machine

end StepScript
