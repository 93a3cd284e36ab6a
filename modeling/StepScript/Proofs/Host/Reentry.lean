import StepScript.Proofs.Host.Reachable
import StepScript.Proofs.Machine.Opening

/-!
# Proofs/Host/Reentry — hosts that operate the machine while they are asked

An operation asks its host for one thing at most: a function, or a script for an invocation. Before
it answers, the host may perform operations on the same machine, also on the invocation that asks;
these may ask it again, and so on to any depth. The operation that asked goes on with the handles it
had, and whatever has become of their objects, every object has its owner in the end.

* `Host.question` — what an operation asks, and the world in which it does.
* `Host.Meanwhile` — what may happen before an answer.
* `Host.Meanwhile.upholds` — whatever happens keeps the machine in order, but for the scripts that
  are being started.
* `Machine.Reentered` — the machines that such hosts can make; every one of them is sound.
-/

namespace StepScript

/-- **What an operation asks of its host**: a function, or a script for an invocation. -/
inductive Question where
  | function (call : Call)
  | script (t : ThreadHandle) (name : String) (args : List String)
deriving DecidableEq

namespace Host

variable {η : Type} {h : Host η} {w w' : World η}

/-! ## Questions -/

/-- What a line asks, and the world in which it does. -/
def questionAt (h : Host η) (w : World η) (l : Line) : Option (Question × World η) :=
  let r := (Machine.plan h.toSetting l).run w.machine
  match r.value with
  | .go _ => none
  | .ask call _ => some (.function call, { w with machine := r.state })
  | .enter name args =>
    some (.script l.thread name args,
      { w with machine := r.state.moveCursor l.frame (l.index + 1) })

/-- What a step of a frame asks, and the world in which it does. -/
def questionOf (h : Host η) (w : World η) (f : FrameHandle) : Option (Question × World η) :=
  let r := (Machine.prepare f).run w.machine
  match r.value with
  | .ok (.line l) => h.questionAt { w with machine := r.state } l
  | _ => none

/-- **What an operation asks**, and the world in which it does. -/
def question (h : Host η) (w : World η) : Operation → Option (Question × World η)
  | .start entity name =>
    some (.script w.machine.threads.fresh name [],
      { w with machine := w.machine.opened entity name })
  | .step f => h.questionOf w f
  | .stepInvocation t => (w.machine.frameOf t).bind (h.questionOf w)
  | _ => none

/-- The world when the host has answered. -/
def answered (h : Host η) (w : World η) : Question → World η
  | .function call => ((h.dispatch call).run w).state
  | .script _ name _ => ((h.load name).run w).state

/-- The machine when the host has answered, with the script that it found for an invocation. -/
def supplied (h : Host η) (w : World η) (q : Question) : Machine :=
  match q, h.answered w q with
  | .function _, w' => w'.machine
  | .script t name args, w' =>
    match h.script name w with
    | .ok (script, _) => w'.machine.pushed t script args
    | .error _ => w'.machine

/-- **No counter goes round** while an operation is performed. -/
structure Forward (h : Host η) (w : World η) (op : Operation) : Prop where
  asked : ∀ q v, h.question w op = some (q, v) → v.machine.Ahead
  supplied : ∀ q v, h.question w op = some (q, v) → (h.supplied v q).Ahead
  after : ((h.perform op).run w).state.machine.Ahead

instance (h : Host η) (w : World η) (op : Operation) : Decidable (h.Forward w op) := by
  refine decidable_of_iff
    ((h.question w op).all (fun e => e.2.machine.Ahead ∧ (h.supplied e.2 e.1).Ahead) = true ∧
    ((h.perform op).run w).state.machine.Ahead) ⟨?_, fun hforward => ⟨?_, hforward.after⟩⟩
  · rintro ⟨hall, hafter⟩
    have hask : ∀ q v, h.question w op = some (q, v) →
        v.machine.Ahead ∧ (h.supplied v q).Ahead := by
      intro q v hq
      rw [hq, Option.all_some] at hall
      exact of_decide_eq_true hall
    exact ⟨fun q v hq => (hask q v hq).1, fun q v hq => (hask q v hq).2, hafter⟩
  · cases hq : h.question w op with
    | none => rfl
    | some e => exact decide_eq_true ⟨hforward.asked e.1 e.2 hq, hforward.supplied e.1 e.2 hq⟩

/-- **What may happen before a host answers**: it changes its own state, and performs operations.
While one of these asks a host, the same may happen. -/
inductive Meanwhile : World η → World η → Prop where
  | start (w : World η) : Meanwhile w w
  | own {w v : World η} (hbefore : Meanwhile w v) (own : η) : Meanwhile w { v with own }
  | perform {w v : World η} {h : Host η} {op : Operation} (hbefore : Meanwhile w v)
    (hop : op ≠ .reset)
    (htext : ∀ name w located, ((h.load name).run w).value = .ok located →
      located.text.length < UInt64.size)
    (hforward : h.Forward v op)
    (hanswer : ∀ q u, h.question v op = some (q, u) → Meanwhile u (h.answered u q)) :
    Meanwhile w ((h.perform op).run v).state

open Machine (Later Opening Start Edits)

/-- The second machine is in order, but for the scripts that are being started, and no handle was
given out again. -/
structure Upheld (starts : List Start) (m m' : Machine) : Prop where
  opening : m'.Opening starts
  ahead : m'.Ahead
  later : Later m m'

/-- Whatever happens between the machines, they are upheld. -/
def Upholds (m m' : Machine) : Prop := ∀ starts, m.Opening starts → m.Ahead → Upheld starts m m'

/-- What happens before the host answers does no harm. -/
def Survives (h : Host η) (asked : Option (Question × World η)) : Prop :=
  ∀ q u, asked = some (q, u) → u.machine.Ahead ∧ (h.supplied u q).Ahead ∧
    Upholds u.machine (h.answered u q).machine

/-- The second machine is in order, as `Upheld` has it, wherever its counters stand. -/
structure Continues (starts : List Start) (m m' : Machine) : Prop where
  opening : m'.Opening starts
  later : Later m m'

namespace Continues

variable {starts : List Start} {m m' m'' : Machine}

theorem refl (h : m.Opening starts) : Continues starts m m := ⟨h, .refl m⟩

/-- What goes on from a machine that goes on goes on from the first. -/
theorem trans (h : Continues starts m m') (h' : Continues starts m' m'') : Continues starts m m'' :=
  ⟨h'.opening, h.later.trans h'.later⟩

/-- Edits go on with what is being started: they touch no stack and no list. -/
theorem edits (h : m.Opening starts) (hedits : Edits m m') : Continues starts m m' :=
  ⟨h.edits hedits, .edits hedits⟩

/-- A line outlives whatever happens, unless its frame is gone. -/
theorem line {l : Line} (h : Continues starts m m') (hahead : m.Ahead) (hl : l.In m)
    (hlive : m'.frames.contains l.frame = true) : l.In m' := by
  refine h.later.line hahead hl hlive fun frame c hf hc => ?_
  exact h.opening.sound.owned.command_of_listed (m := m'.without _) hf hc

end Continues

/-- What upholds the starts of a machine continues it. -/
theorem Upheld.continues {m m' : Machine} {starts : List Start} (h : Upheld starts m m') :
    Continues starts m m' :=
  ⟨h.opening, h.later⟩

/-! ## Answers -/

/-- **Looking for a script**: there is none, it is entered, or the invocation is gone. -/
theorem pushFrame_cases (h : Host η) (w : World η) (t : ThreadHandle) (name : String)
    (args : List String) :
    (∃ failure, h.script name w = .error failure ∧
      ((h.pushFrame t name args).run w).value = .error failure ∧
        ((h.pushFrame t name args).run w).state = ((h.load name).run w).state) ∨
      ∃ script warnings, h.script name w = .ok (script, warnings) ∧
        ((∃ thread f, ((h.load name).run w).state.machine.threads.get? t = some thread ∧
            ((h.pushFrame t name args).run w).value = .ok f ∧
            ((h.pushFrame t name args).run w).state = { ((h.load name).run w).state with
              machine := ((h.load name).run w).state.machine.pushed t script args }) ∨
          ∃ failure, ((h.load name).run w).state.machine.threads.get? t = none ∧
            ((h.pushFrame t name args).run w).value = .error failure ∧
            ((h.pushFrame t name args).run w).state = { ((h.load name).run w).state with
              machine := ((h.load name).run w).state.machine.abandoned t script args }) := by
  simp only [pushFrame, Act.run_bind, Host.script]
  cases hload : ((h.load name).run w).value with
  | error failure => exact .inl ⟨failure, rfl, rfl, rfl⟩
  | ok located =>
    dsimp only
    cases hread : Script.read name located.dialect located.text with
    | error failure => exact .inl ⟨failure, rfl, rfl, rfl⟩
    | ok result =>
      obtain ⟨script, warnings⟩ := result
      refine .inr ⟨script, warnings, rfl, ?_⟩
      simp only [Act.run_bind, Act.run_reportAll, World.run_liftM]
      cases hthread : ((h.load name).run w).state.machine.threads.get? t with
      | none =>
        rw [Machine.run_pushScript_of_dead hthread]
        exact .inr ⟨_, rfl, rfl, rfl⟩
      | some thread =>
        rw [Machine.run_pushScript (Table.contains_iff.2 ⟨thread, hthread⟩)]
        exact .inl ⟨thread, _, rfl, rfl, rfl⟩

variable {starts : List Start} {t : ThreadHandle} {f : FrameHandle} {name : String}
  {args : List String}

/-- **Entering a script** that the host looks for, on an invocation that is not being started. -/
theorem continues_pushFrame (htext : h.Numbered) (hopening : w.machine.Opening starts)
    (ht : t ∉ starts.map Start.thread) (hask : h.Survives (some (.script t name args, w))) :
    Continues starts w.machine ((h.pushFrame t name args).run w).state.machine := by
  obtain ⟨hahead, hsupplied, hanswer⟩ := hask _ _ rfl
  have hupheld := hanswer starts hopening hahead
  have hloaded := hupheld.continues
  rcases h.pushFrame_cases w t name args with ⟨failure, -, -, hstate⟩ | ⟨script, warnings, hscript,
    ⟨thread, f, hthread, -, hstate⟩ | ⟨failure, hdead, -, hstate⟩⟩
  · rw [hstate]
    exact hloaded
  · simp only [Host.supplied, hscript] at hsupplied
    rw [hstate]
    exact hloaded.trans ⟨hloaded.opening.pushed ht hthread (htext.readable hscript) hsupplied,
      .pushed hupheld.ahead hsupplied⟩
  · simp only [Host.supplied, hscript] at hsupplied
    rw [hstate]
    exact hloaded.trans ⟨hloaded.opening.abandoned hdead hsupplied,
      .abandoned hupheld.ahead hsupplied⟩

/-- Entering a script leaves what pushing it leaves, with the line behind its cursor. -/
theorem state_enter (h : Host η) (w : World η) (l : Line) (name : String) (args : List String) :
    ((h.enter l name args).run w).state = ((h.pushFrame l.thread name args).run
      { w with machine := w.machine.moveCursor l.frame (l.index + 1) }).state := by
  unfold enter
  rw [World.run_modifyMachine_bind, Act.run_bind]
  cases ((h.pushFrame l.thread name args).run
    { w with machine := w.machine.moveCursor l.frame (l.index + 1) }).value with
  | error failure => rfl
  | ok frame => rfl

/-! ## Steps -/

/-- **Executing a line.** The host may do as it likes before it answers. -/
theorem continues_execute {l : Line} (htext : h.Numbered) (hopening : w.machine.Opening starts)
    (hl : l.In w.machine) (ht : l.thread ∉ starts.map Start.thread)
    (hask : h.Survives (h.questionAt w l)) :
    Continues starts w.machine ((h.execute l).run w).state.machine := by
  have hchanges := (Machine.Runs.plan h.toSetting).changes _ hl
  unfold execute
  rw [Act.run_bind, World.run_liftM]
  unfold questionAt at hask
  rcases Machine.plan_cases h.toSetting l w.machine with
    ⟨flow, hvalue⟩ | ⟨name, args, assignTo, hasks⟩ | ⟨name, args, henters⟩
  · simp only [hvalue]
    exact .edits hopening (hchanges.edits.trans (Machine.edits_follow l flow _))
  · obtain ⟨hvalue, hstate⟩ := Machine.run_plan_of_asks hasks
    simp only [hvalue, hstate] at hask
    obtain ⟨hahead, -, hanswer⟩ := hask _ _ rfl
    have hanswered := (hanswer starts hopening hahead).continues
    simp only [hvalue, hstate, Act.run_bind, World.run_liftM, Act.run_pure]
    exact hanswered.trans
      (.edits hanswered.opening (Machine.edits_takeAnswer (hanswered.line hahead hl) _ _ _))
  · obtain ⟨hvalue, hstate⟩ := Machine.run_plan_of_enters henters
    simp only [hvalue, hstate] at hask
    have hmove : Edits w.machine (w.machine.moveCursor l.frame (l.index + 1)) :=
      Machine.edits_modifyFrame fun _ _ => .move _
    simp only [hvalue, hstate, state_enter]
    exact (Continues.edits hopening hmove).trans
      (continues_pushFrame htext (hopening.edits hmove) ht hask)

/-- **Stepping a frame.** -/
theorem continues_step (htext : h.Numbered) (hopening : w.machine.Opening starts)
    (hask : h.Survives (h.questionOf w f)) :
    Continues starts w.machine ((h.step f).run w).state.machine := by
  rcases hopening.idle_or_innermost f with hidle | ⟨t, below, frame, ht, horder, hf, hpending⟩
  · rw [run_step_of_idle hidle]
    exact .refl hopening
  · have hready := Machine.edits_readied w.machine f
    have hreadied := Continues.edits hopening hready
    unfold step
    rw [Act.run_bind, World.run_liftM]
    rcases horder.run_prepare hf hpending with
      ⟨l, rfl, rfl, hl, hrun⟩ | ⟨-, signal, m', hunwinds, hrun⟩
    · unfold questionOf at hask
      simp only [hrun] at hask ⊢
      exact hreadied.trans (continues_execute htext hreadied.opening
        (hready.line hl.stands) ht hask)
    · simp only [hrun]
      exact hreadied.trans ⟨hreadied.opening.unwinds ht hunwinds, .unwinds hunwinds⟩

/-- **Stepping an invocation**, also one that is being started. -/
theorem continues_stepInvocation (htext : h.Numbered) (hopening : w.machine.Opening starts)
    (hask : h.Survives ((w.machine.frameOf t).bind (h.questionOf w))) :
    Continues starts w.machine ((h.stepInvocation t).run w).state.machine := by
  cases htop : w.machine.frameOf t with
  | none =>
    rw [machine_stepInvocation_of_bare htop]
    exact ⟨hopening.cleanup t, .cleanup _ t⟩
  | some f =>
    obtain ⟨below, hstack⟩ := Machine.stackAt_of_frameOf htop
    rw [htop, Option.bind_some] at hask
    rw [run_stepInvocation hstack]
    exact continues_step htext hopening hask

/-! ## Starts -/

/-- A target that a start makes is no target of a start before it. -/
theorem ne_home_of_created (hopening : w.machine.Opening starts) (hahead : w.machine.Ahead)
    (entity : EntityId) (hcreated : (w.machine.home entity).1.2 = true) :
    ∀ s ∈ starts, s.target ≠ (w.machine.home entity).1.1 := by
  obtain ⟨target, -, -, -, ⟨-, heq⟩ | ⟨hnew, -⟩⟩ := Machine.home_spec (m := w.machine)
    hopening.sound.proper.targets hahead.targets.not_full entity
  · rw [heq] at hcreated
    cases hcreated
  · intro s hs hsame
    obtain ⟨other, hother, -⟩ := hopening.home s hs
    rw [hsame, hnew] at hother
    cases hother

/-- A start that fails takes the invocation away, and the target if it made it and nothing runs on
it. -/
theorem start_of_error {entity : EntityId} {failure : Failure}
    (hvalue : ((h.pushFrame w.machine.threads.fresh name []).run
      { w with machine := w.machine.opened entity name }).value = .error failure)
    (hstate : ((h.pushFrame w.machine.threads.fresh name []).run
      { w with machine := w.machine.opened entity name }).state = w') :
    ((h.start entity name).run w).state.machine =
      { w'.machine with
        threads := w'.machine.threads.erase w.machine.threads.fresh
        targets :=
          if (w.machine.home entity).1.2 then
            w'.machine.targets.eraseIf (w.machine.home entity).1.1 (·.threads.isEmpty)
          else w'.machine.targets } := by
  unfold start
  rw [World.run_getMachine_bind]
  dsimp only
  rw [World.run_modifyMachine_bind]
  change (((h.pushFrame w.machine.threads.fresh name []) >>= _).run
    { w with machine := w.machine.opened entity name }).state.machine = _
  rw [Act.run_bind, hvalue, hstate]
  rfl

/-- A start that succeeds has the target list the invocation. -/
theorem start_of_ok {entity : EntityId}
    (hvalue : ((h.pushFrame w.machine.threads.fresh name []).run
      { w with machine := w.machine.opened entity name }).value = .ok f)
    (hstate : ((h.pushFrame w.machine.threads.fresh name []).run
      { w with machine := w.machine.opened entity name }).state = w')
    (hhome : w'.machine.targets.contains (w.machine.home entity).1.1 = true) :
    ((h.start entity name).run w).state.machine =
      w'.machine.modifyTarget (w.machine.home entity).1.1 fun target =>
        { target with threads := target.threads ++ [w.machine.threads.fresh] } := by
  unfold start
  rw [World.run_getMachine_bind]
  dsimp only
  rw [World.run_modifyMachine_bind]
  change (((h.pushFrame w.machine.threads.fresh name []) >>= _).run
    { w with machine := w.machine.opened entity name }).state.machine = _
  rw [Act.run_bind, hvalue, hstate]
  dsimp only
  rw [World.run_getMachine_bind, Act.run_ite]
  rw [Machine.home] at hhome
  rw [if_pos hhome]
  rfl

/-- **Starting a script.** By the time the script is there, the invocation may be gone. -/
theorem continues_start (htext : h.Numbered) (hopening : w.machine.Opening starts)
    (hahead : w.machine.Ahead) (entity : EntityId) (name : String)
    (hask : h.Survives (h.question w (.start entity name))) :
    Continues starts w.machine ((h.start entity name).run w).state.machine := by
  obtain ⟨hasked, hsupplied, hanswer⟩ := hask _ _ rfl
  obtain ⟨hloaded, hahead', hlater⟩ := hanswer _ (hopening.opened hahead entity name hasked) hasked
  have hbegun : Later w.machine (w.machine.opened entity name) := ⟨.refl _, .refl _⟩
  have hcreated := ne_home_of_created hopening hahead entity
  rcases h.pushFrame_cases { w with machine := w.machine.opened entity name }
      w.machine.threads.fresh name [] with
    ⟨failure, -, hvalue, hstate⟩ | ⟨script, warnings, hscript,
      ⟨thread, f, hthread, hvalue, hstate⟩ | ⟨failure, hdead, hvalue, hstate⟩⟩
  · rw [start_of_error hvalue hstate]
    exact ⟨hloaded.withdrawn _ hcreated, hbegun.trans (hlater.trans ⟨.refl _, .refl _⟩)⟩
  · simp only [Host.supplied, hscript] at hsupplied
    obtain ⟨target, htarget, -⟩ := hloaded.home _ List.mem_cons_self
    rw [start_of_ok hvalue hstate (Table.contains_iff.2 ⟨target, htarget⟩)]
    exact ⟨hloaded.attached (hopening.fresh_notMem hahead) hthread (htext.readable hscript) hahead'
      hsupplied,
      hbegun.trans ((hlater.trans (.pushed hahead' hsupplied)).trans ⟨.refl _, .refl _⟩)⟩
  · simp only [Host.supplied, hscript] at hsupplied
    rw [start_of_error hvalue hstate]
    exact ⟨(hloaded.abandoned hdead hsupplied).withdrawn _ hcreated,
      hbegun.trans ((hlater.trans (.abandoned hahead' hsupplied)).trans ⟨.refl _, .refl _⟩)⟩

/-! ## Operations -/

/-- **Every operation but `reset`** does no harm, if what happens before an answer does none. -/
theorem upholds_perform {op : Operation} (hop : op ≠ .reset) (htext : h.Numbered)
    (hforward : h.Forward w op)
    (hanswer : ∀ q u, h.question w op = some (q, u) → Upholds u.machine (h.answered u q).machine) :
    Upholds w.machine ((h.perform op).run w).state.machine := by
  intro starts hopening hahead
  have hask : h.Survives (h.question w op) :=
    fun q u hq => ⟨hforward.asked q u hq, hforward.supplied q u hq, hanswer q u hq⟩
  suffices hcontinues : Continues starts w.machine ((h.perform op).run w).state.machine from
    ⟨hcontinues.opening, hforward.after, hcontinues.later⟩
  cases op with
  | start entity name =>
    simp only [perform, Act.run_map]
    exact continues_start htext hopening hahead entity name hask
  | step f =>
    simp only [perform, Act.run_map]
    exact continues_step htext hopening hask
  | stepInvocation t =>
    simp only [perform, Act.run_map]
    exact continues_stepInvocation htext hopening hask
  | complete f result =>
    simp only [perform, Act.run_map, World.run_onMachine]
    exact .edits hopening (Machine.edits_completeCall f result w.machine)
  | setVariable t token value =>
    simp only [perform, Act.run_map, World.run_onMachine]
    exact .edits hopening (Machine.edits_setVariable t token value w.machine)
  | setGlobal name value => exact .edits hopening (.single (.globalVariable _ _))
  | claim =>
    simp only [perform, World.run_getMachine_bind]
    unfold Machine.claimNext
    split
    · exact .refl hopening
    · exact ⟨hopening.claim _, ⟨.refl _, .refl _⟩⟩
  | cleanup t => exact ⟨hopening.cleanup t, .cleanup _ t⟩
  | reset => exact absurd rfl hop

/-- **Whatever happens before an answer does no harm.** -/
theorem Meanwhile.upholds (hmeanwhile : Meanwhile w w') : Upholds w.machine w'.machine := by
  induction hmeanwhile with
  | start w => exact fun starts hopening hahead => ⟨hopening, hahead, .refl _⟩
  | own _ _ ih => exact ih
  | perform _ hop htext hforward _ ih ihanswer =>
    intro starts hopening hahead
    have hbefore := ih starts hopening hahead
    have hafter := upholds_perform hop htext hforward ihanswer starts hbefore.opening hbefore.ahead
    exact ⟨hafter.opening, hafter.ahead, hbefore.later.trans hafter.later⟩

end Host

namespace Machine

/-! ## Between operations -/

/-- **The machines that hosts can make which operate the machine while they are asked.** No counter
goes round; a reset makes a new machine. -/
inductive Reentered : Machine → Prop
  | new : Reentered ∅
  | perform {η : Type} {w w' : World η} (hbefore : Reentered w.machine)
  (hmeanwhile : Host.Meanwhile w w') :
    Reentered w'.machine
  | load {m saved : Machine} {bs : Bytes} (s : Setting) (hbefore : Reentered m)
    (hsaved : Reentered saved) (hsave : saved.save = .ok bs) (hfits : saved.Fits)
    (hahead : ((load s bs).run m).state.Ahead) :
    Reentered ((load s bs).run m).state

/-- **Machines are sound also when hosts operate them while they are asked**, and their counters are
ahead of all handles. -/
theorem Reentered.sound_and_ahead {m : Machine} (h : Reentered m) : m.Sound ∧ m.Ahead := by
  induction h with
  | new => exact ⟨Sound.empty, by decide⟩
  | perform _ hmeanwhile ih =>
    have hupheld := hmeanwhile.upholds [] ih.1.opening ih.2
    exact ⟨hupheld.opening.sound, hupheld.ahead⟩
  | load s _ _ hsave hfits hahead _ ih =>
    obtain ⟨-, hsound, -⟩ := ih.1.load_save hfits hsave s _
    exact ⟨hsound, hahead⟩

/-- **Re-entrant hosts leave every object with its owner.** -/
theorem Reentered.owners_kept {m : Machine} (h : Reentered m) : m.Linked :=
  h.sound_and_ahead.1.owned.linked

/-- The host is asked for a script. Before it gives it, it starts the script itself, on the same
entity, and cancels the invocation that the script was for. -/
def intruding : Host (List Call) where
  toSetting := {}
  dispatch := (asking {}).dispatch
  load name := do
    let _ ← (asking {}).perform (.start ⟨7⟩ "greet")
    let _ ← (asking {}).perform (.cleanup ⟨1⟩)
    (asking {}).load name

/-- The script was started, and was not. -/
def intruded : Machine := ((intruding.perform (.start ⟨7⟩ "greet")).run ⟨∅, []⟩).state.machine

/-- The machine that was operated in the middle of a step is one that such hosts can make. -/
theorem reentered_intruded : intruded.Reentered := by
  have htext := (quiet_asking {}).text
  -- what happens while the first script is looked for
  have hstarted : Host.Meanwhile _ (((asking {}).perform (.start ⟨7⟩ "greet")).run
      ⟨(∅ : Machine).opened ⟨7⟩ "greet", []⟩).state :=
    .perform (.start _) (by decide) htext (by decide +kernel)
      fun q u hq => by cases hq; exact .start _
  have hcancelled : Host.Meanwhile _ (((asking {}).perform (.cleanup ⟨1⟩)).run (((asking {}).perform
      (.start ⟨7⟩ "greet")).run ⟨(∅ : Machine).opened ⟨7⟩ "greet", []⟩).state).state :=
    .perform hstarted (by decide) htext (by decide +kernel) fun q u hq => by cases hq
  have hintruded : Host.Meanwhile _ ((intruding.perform (.start ⟨7⟩ "greet")).run ⟨∅, []⟩).state :=
    .perform (.start _) (by decide) (fun name _ located => length_greet name located)
      (by decide +kernel) fun q u hq => by cases hq; exact hcancelled
  exact .perform .new hintruded

/-- The invocation that was cancelled is gone, and the other one has its owner. -/
theorem intruded_owners_kept :
    intruded.Reentered ∧ intruded.invocations = [⟨2⟩] ∧ intruded.Linked :=
  ⟨reentered_intruded, by decide +kernel, reentered_intruded.owners_kept⟩

end Machine

end StepScript
