import StepScript.Proofs.Host.Signal
import StepScript.Proofs.Machine.Alike

/-!
# Proofs/Host/Commute — steps on different targets commute

Invocations on different targets share the global variables and the counters of the tables, and
nothing else. So a step of one is the same step whether or not the other has been stepped before, as
long as its line names no global variable and no frame is made; and it does not matter which of the
two goes first.

* `Host.Stepped.shrinks_or_pushed` — a step that makes no frame only removes objects.
* `Host.Quiet.agrees_stepInvocation` — the step of an invocation in two worlds that are alike for
  it.
* `Machine.Square.machine_eq` — two steps in either order lead to the same machine.
* `Machine.Reachable.steps_commute`.
-/

namespace StepScript

namespace Machine

variable {m m' : Machine} {t : ThreadHandle} {g : TargetHandle}

/-- What another invocation does on another target cannot be seen. -/
theorem Apart.alike {k : ThreadHandle} (h : Apart t m m') (hk : k ≠ t)
    (hg : m.targetAt t ≠ some g) :
    Alike k g m m' where
  thread := h.thread k hk
  target := h.target g hg
  frame f frame hthread := h.frame f frame (hthread ▸ hk)
  command f frame hf hthread := h.command f frame hf (hthread ▸ hk)

theorem SameLinks.frame_gone {f : FrameHandle} (h : SameLinks m m') (hf : m'.frames.get? f = none) :
    m.frames.get? f = none := by
  have hsame := h.threadAt f
  rw [Machine.threadAt, hf, Machine.threadAt] at hsame
  exact Option.map_eq_none_iff.1 hsame.symm

/-- The token that receives the answer is one of the line. -/
theorem mem_of_ask {s : Setting} {l : Line} {call : Call} {assignTo : Option String}
    (hask : ((plan s l).run m).value = .ask call assignTo) (token : String)
    (htoken : assignTo = some token) :
    token ∈ l.tokens := by
  rcases plan_cases s l m with
    ⟨flow, hvalue⟩ | ⟨name, args, assignTo', hasks⟩ | ⟨name, args, henters⟩
  · rw [hask] at hvalue
    cases hvalue
  · have hvalue := (run_plan_of_asks hasks).1
    rw [hask] at hvalue
    cases hvalue
    cases hasks with
    | function => cases htoken
    | result htokens =>
      cases htoken
      rw [htokens]
      simp
  · have hvalue := (run_plan_of_enters henters).1
    rw [hask] at hvalue
    cases hvalue

/-- **No line that an invocation can run next names a global variable.** -/
def NextIsLocal (m : Machine) (t : ThreadHandle) : Prop :=
  ∀ l : Line, m.frameOf t = some l.frame → l.RunsNext m → l.IsLocal

end Machine

namespace Host

variable {η : Type} {h : Host η} {w : World η} {t : ThreadHandle} {g : TargetHandle}
  {f : FrameHandle}

open Machine

/-! ## Steps that make no frame -/

/-- The world after a step of an invocation. -/
def after (h : Host η) (t : ThreadHandle) (w : World η) : World η :=
  ((h.stepInvocation t).run w).state

/-- **The step of the invocation pushes a new frame.** -/
def Pushes (h : Host η) (t : ThreadHandle) (w : World η) : Prop :=
  ∃ f, w.machine.frames.get? f = none ∧ (h.after t w).machine.frames.get? f ≠ none

/-- The handle of the frame that a script would get names nothing yet. -/
theorem get?_fresh_moveCursor {m : Machine} (hproper : m.Proper) (hroom : m.Roomy) (f : FrameHandle)
    (index : Nat) : m.frames.get? (m.moveCursor f index).frames.fresh = none := by
  have hshrinks : Shrinks m (m.moveCursor f index) :=
    { Shrinks.refl m with frames := .modify _ f _ }
  have hfresh :=
    Table.get?_fresh (hshrinks.proper hproper).frames.next (hshrinks.roomy hroom).frames
  rw [moveCursor, frames_modifyFrame, Table.get?_modify] at hfresh
  split at hfresh
  · exact Option.map_eq_none_iff.1 hfresh
  · exact hfresh

/-- **A step removes objects, or makes a frame** of its invocation. -/
theorem Stepped.shrinks_or_pushed {value : Except Failure Signal} {m' : Machine}
    (hstep : h.Stepped t f w value m') (hsound : w.machine.Sound) (hroom : w.machine.Roomy) :
    Shrinks w.machine m' ∨ ∃ k frame, w.machine.frames.get? k = none ∧
      m'.frames.get? k = some frame ∧ frame.thread = t := by
  rcases hstep.shrinks_or_entered with hshrinks | ⟨l, -, -, values, script, -, -, -, -, -, rfl⟩
  · exact .inl hshrinks
  · have hnew := get?_frames_pushed (m := w.machine.moveCursor f (l.index + 1)) t script values
      (w.machine.moveCursor f (l.index + 1)).frames.fresh
    rw [if_pos rfl] at hnew
    exact .inr ⟨_, _, get?_fresh_moveCursor hsound.proper hroom f (l.index + 1), hnew, rfl⟩

/-- What a step of a live invocation does, if it makes no frame. -/
structure Confined (t : ThreadHandle) (m m' : Machine) : Prop where
  sound : m'.Sound
  shrinks : Shrinks m m'
  apart : Apart t m m'

/-- **A step that makes no frame** is confined, and only removes objects. -/
theorem Quiet.confined_of_not_pushed (hq : h.Quiet) {thread : Thread} (hsound : w.machine.Sound)
    (hroom : w.machine.Roomy) (ht : w.machine.threads.get? t = some thread)
    (hpush : ∀ k frame, w.machine.frames.get? k = none →
      (h.after t w).machine.frames.get? k = some frame → frame.thread ≠ t) :
    Confined t w.machine (h.after t w).machine := by
  obtain ⟨f, below, hstack⟩ := hsound.exists_stack ht
  obtain ⟨frame, hf, ⟨-, hidle⟩ | ⟨-, hstepped, -⟩⟩ := hq.stepInvocation_cases hsound hstack
  · rw [after, hidle]
    exact ⟨hsound, .refl _, (hsound.same_of_within hstack (.refl _) (.refl _) h.toSetting).1⟩
  · rcases hstepped.shrinks_or_pushed hsound hroom with hshrinks | ⟨k, frame, hk, hk', hthread⟩
    · have hroom' := hshrinks.roomy hroom
      exact ⟨hsound.moves (hstepped.moves hq hsound hroom'), hshrinks,
        (hstepped.confined hsound hstack hroom').1⟩
    · exact absurd hthread (hpush k frame hk hk')

/-- A step pushes no frame if every frame that is there afterwards was there before. -/
theorem not_pushes_iff : ¬ h.Pushes t w ↔
    ∀ k, w.machine.frames.get? k = none → (h.after t w).machine.frames.get? k = none := by
  simp only [Pushes, not_exists, not_and, ne_eq, not_not]

/-- **A step that pushes no frame is confined** to the invocation, its frames and the variables it
can reach. -/
theorem Quiet.confined (hq : h.Quiet) {thread : Thread} (hsound : w.machine.Sound)
    (hroom : w.machine.Roomy) (ht : w.machine.threads.get? t = some thread)
    (hpush : ¬ h.Pushes t w) :
    Confined t w.machine (h.after t w).machine := by
  refine hq.confined_of_not_pushed hsound hroom ht fun k frame hk hk' => ?_
  rw [not_pushes_iff.1 hpush k hk] at hk'
  cases hk'

/-! ## The same step in two worlds -/

/-- What the host answers to a call depends on the call only. -/
def AnswersByCall (h : Host η) : Prop :=
  ∀ call w w', ((h.dispatch call).run w').value = ((h.dispatch call).run w).value

/-- What script the host finds depends on the name only. -/
def LoadsByName (h : Host η) : Prop :=
  ∀ name w w', ((h.load name).run w').value = ((h.load name).run w).value

theorem LoadsByName.script {name : String} {w' : World η} (hload : h.LoadsByName) :
    h.script name w' = h.script name w := by
  rw [Host.script, Host.script, hload name w w']

/-- A host that keeps its calls leaves the machine alone if the host itself does. -/
theorem Quiet.recorded (hq : h.Quiet) : h.recorded.Quiet where
  dispatch call v := hq.dispatch call ⟨v.machine, v.own.1⟩
  load name v := hq.load name ⟨v.machine, v.own.1⟩
  text name v := hq.text name ⟨v.machine, v.own.1⟩

theorem LoadsByName.recorded (hload : h.LoadsByName) : h.recorded.LoadsByName :=
  fun name v v' => hload name ⟨v.machine, v.own.1⟩ ⟨v'.machine, v'.own.1⟩

/-- **A computation agrees on two worlds** of a host that keeps its calls: the signals and the calls
are the same, the machines are left alike, and the global variables are as they were. A failure is
the same if scripts are found by their names alone. -/
structure Agrees (h : Host η) (t : ThreadHandle) (g : TargetHandle)
    (x : Act (World (η × List Call)) (Except Failure Signal)) (v v' : World (η × List Call)) :
    Prop where
  signal : (x.run v').value.toOption = (x.run v).value.toOption
  reply : h.LoadsByName → (x.run v').value = (x.run v).value
  calls : (x.run v').state.own.2 = (x.run v).state.own.2
  alike : Alike t g (x.run v).state.machine (x.run v').state.machine
  globals : (x.run v).state.machine.globals = v.machine.globals ∧
    (x.run v').state.machine.globals = v'.machine.globals

variable {v v' : World (η × List Call)} {α : Type}

/-- A computation that goes on as another one does in other worlds. -/
theorem Agrees.of_run {u u' : World (η × List Call)}
    {x z : Act (World (η × List Call)) (Except Failure Signal)} (hz : h.Agrees t g z u u')
    (hv : (x.run v).value = (z.run u).value ∧ (x.run v).state = (z.run u).state)
    (hv' : (x.run v').value = (z.run u').value ∧ (x.run v').state = (z.run u').state)
    (hglobals : u.machine.globals = v.machine.globals ∧ u'.machine.globals = v'.machine.globals) :
    h.Agrees t g x v v' := by
  refine ⟨?_, fun hload => ?_, ?_, ?_, ?_, ?_⟩
  · rw [hv.1, hv'.1, hz.signal]
  · rw [hv.1, hv'.1, hz.reply hload]
  · rw [hv.2, hv'.2, hz.calls]
  · rw [hv.2, hv'.2]
    exact hz.alike
  · rw [hv.2, hz.globals.1, hglobals.1]
  · rw [hv'.2, hz.globals.2, hglobals.2]

/-- Doing nothing agrees on two worlds that are alike. -/
theorem Agrees.pure (halike : Alike t g v.machine v'.machine) (hcalls : v'.own.2 = v.own.2)
    (value : Except Failure Signal) : h.Agrees t g (Pure.pure value) v v' :=
  ⟨rfl, fun _ => rfl, hcalls, halike, rfl, rfl⟩

/-- A computation of the machine comes first. -/
theorem Agrees.onMachine {x : Act Machine α}
    {y : α → Act (World (η × List Call)) (Except Failure Signal)}
    (hx : Concurs t g x v.machine v'.machine)
    (hy : h.Agrees t g (y (x.run v.machine).value) { v with machine := (x.run v.machine).state }
      { v' with machine := (x.run v'.machine).state }) :
    h.Agrees t g (World.onMachine x >>= y) v v' := by
  refine hy.of_run ⟨rfl, rfl⟩ ?_ hx.globals
  rw [Act.run_bind, World.run_onMachine, hx.value]
  exact ⟨rfl, rfl⟩

/-- **A call that puts no frame on the stack** is refused. -/
theorem Quiet.script_refused (hq : h.Quiet) {l : Line} {name : String} (args : List String)
    (hproper : w.machine.Proper) (hroom : w.machine.Roomy)
    (hlive : w.machine.threads.contains l.thread = true)
    (hstill : ∀ k, w.machine.frames.get? k = none →
      ((h.enter l name args).run w).state.machine.frames.get? k = none) :
    ∃ reason, h.script name { w with machine := w.machine.moveCursor l.frame (l.index + 1) } =
      .error reason := by
  cases hscript :
      h.script name { w with machine := w.machine.moveCursor l.frame (l.index + 1) } with
  | error reason => exact ⟨reason, rfl⟩
  | ok result =>
    have hnew := hstill _ (get?_fresh_moveCursor hproper hroom l.frame (l.index + 1))
    rw [hq.run_enter name args hlive, hscript, get?_frames_pushed, if_pos rfl] at hnew
    cases hnew

/-- **A refused call agrees.** -/
theorem Quiet.agrees_enter (hq : h.Quiet) {l : Line} {name : String} {args : List String}
    (halike : Alike l.thread g v.machine v'.machine) (hcalls : v'.own.2 = v.own.2)
    (hl : l.In v.machine) (hlive : v.machine.threads.contains l.thread = true)
    {reason reason' : Failure}
    (hscript : h.recorded.script name
      { v with machine := v.machine.moveCursor l.frame (l.index + 1) } =
      .error reason)
    (hscript' : h.recorded.script name
      { v' with machine := v'.machine.moveCursor l.frame (l.index + 1) } =
      .error reason') :
    h.Agrees l.thread g (h.recorded.enter l name args) v v' := by
  have hlive' : v'.machine.threads.contains l.thread = true := by
    rw [← hlive, Table.contains_eq, Table.contains_eq, halike.thread]
  have hrun := hq.recorded.run_enter name args hlive
  have hrun' := hq.recorded.run_enter name args hlive'
  have hmoved : Alike l.thread g (v.machine.moveCursor l.frame (l.index + 1))
      (v'.machine.moveCursor l.frame (l.index + 1)) := halike.modifyOwn hl fun _ => ⟨rfl, rfl⟩
  have hmachine :=
    hq.recorded.load name { v with machine := v.machine.moveCursor l.frame (l.index + 1) }
  have hmachine' :=
    hq.recorded.load name { v' with machine := v'.machine.moveCursor l.frame (l.index + 1) }
  rw [hscript] at hrun
  rw [hscript'] at hrun'
  refine ⟨?_, fun hload => ?_, ?_, ?_, ?_, ?_⟩
  · rw [hrun, hrun']
    rfl
  · rw [hload.recorded.script, hscript] at hscript'
    cases hscript'
    rw [hrun, hrun']
  · rw [hrun, hrun']
    exact hcalls
  · rw [hrun, hrun']
    simp only [hmachine, hmachine']
    exact hmoved
  · rw [hrun]
    simp only [hmachine]
    rfl
  · rw [hrun']
    simp only [hmachine']
    rfl

/-- The call of a line that puts no frame on the stack. -/
theorem Quiet.execute_refused (hq : h.Quiet) {l : Line} {name : String} {args : List String}
    (hsound : w.machine.Sound) (hroom : w.machine.Roomy) (hl : l.In w.machine)
    (hvalue : ((plan h.toSetting l).run w.machine).value = .enter name args)
    (hstill : ∀ k, w.machine.frames.get? k = none →
      ((h.execute l).run w).state.machine.frames.get? k = none) :
    ∃ reason, h.script name { w with
      machine := ((plan h.toSetting l).run w.machine).state.moveCursor l.frame (l.index + 1) } =
      .error reason := by
  have hedits := ((Runs.plan h.toSetting).changes w.machine hl).edits
  have hsound' := hsound.moves hedits.moves
  obtain ⟨thread, hthread, -⟩ := (hsound'.backed (hedits.line hl)).thread
  refine hq.script_refused (w := { w with machine := ((plan h.toSetting l).run w.machine).state })
    args hsound'.proper (hedits.shrinks.roomy hroom) (Table.contains_iff.2 ⟨thread, hthread⟩)
    fun k hk => ?_
  have hafter := hstill k (hedits.sameLinks.frame_gone hk)
  unfold execute at hafter
  rw [Act.run_bind, World.run_liftM, hvalue] at hafter
  exact hafter

/-- Asking the host agrees if what follows does. -/
theorem Quiet.agrees_dispatch (hq : h.Quiet) (hanswers : h.AnswersByCall)
    (hcalls : v'.own.2 = v.own.2) (call : Call)
    {y : Except Failure Completion → Act (World (η × List Call)) (Except Failure Signal)}
    (hy : ∀ answer u u', u.machine = v.machine → u'.machine = v'.machine → u'.own.2 = u.own.2 →
      h.Agrees t g (y answer) u u') :
    h.Agrees t g (h.recorded.dispatch call >>= y) v v' := by
  have hanswer : ((h.recorded.dispatch call).run v').value =
      ((h.recorded.dispatch call).run v).value :=
    hanswers call ⟨v.machine, v.own.1⟩ ⟨v'.machine, v'.own.1⟩
  have hmachine := hq.recorded.dispatch call v
  have hmachine' := hq.recorded.dispatch call v'
  refine (hy _ ((h.recorded.dispatch call).run v).state ((h.recorded.dispatch call).run v').state
    hmachine hmachine' ?_).of_run ⟨rfl, rfl⟩ ?_ ⟨congrArg Machine.globals hmachine,
    congrArg Machine.globals hmachine'⟩
  · exact congrArg (· ++ [call]) hcalls
  · rw [Act.run_bind, hanswer]
    exact ⟨rfl, rfl⟩

/-- **Executing a line agrees**, if it names no global variable and makes no frame. -/
theorem Quiet.agrees_execute (hq : h.Quiet) (hanswers : h.AnswersByCall) {l : Line}
    (hlocal : l.IsLocal) (halike : Alike l.thread g v.machine v'.machine)
    (hcalls : v'.own.2 = v.own.2) (hl : l.In v.machine) (hg : v.machine.targetAt l.thread = some g)
    (hsound : v.machine.Sound) (hsound' : v'.machine.Sound) (hroom : v.machine.Roomy)
    (hroom' : v'.machine.Roomy) (hstill : ∀ k, v.machine.frames.get? k = none →
      ((h.recorded.execute l).run v).state.machine.frames.get? k = none)
    (hstill' : h.LoadsByName ∨ ∀ k, v'.machine.frames.get? k = none →
      ((h.recorded.execute l).run v').state.machine.frames.get? k = none) :
    h.Agrees l.thread g (h.recorded.execute l) v v' := by
  have hplan := (Line.Program.plan h.toSetting l).concurs hlocal halike hl hg
  have hedits := ((Runs.plan h.toSetting).changes v.machine hl).edits
  have hl' := hedits.line hl
  have hg' : ((plan h.toSetting l).run v.machine).state.targetAt l.thread = some g :=
    (hedits.sameLinks.targetAt _).trans hg
  unfold execute
  refine Agrees.onMachine (x := plan h.toSetting l) hplan ?_
  cases hvalue : ((plan h.toSetting l).run v.machine).value with
  | go flow =>
    have hfollow : Concurs l.thread g (follow l flow) ((plan h.toSetting l).run v.machine).state
        ((plan h.toSetting l).run v'.machine).state :=
      ⟨rfl, hplan.alike.modifyOwn hl' fun _ => ⟨rfl, rfl⟩, rfl, rfl⟩
    refine Agrees.onMachine hfollow (.pure hfollow.alike ?_ _)
    exact hcalls
  | ask call assignTo =>
    refine hq.agrees_dispatch hanswers ?_ call fun answer u u' hu hu' hcalls' => ?_
    · exact hcalls
    have htaken : Concurs l.thread g (takeAnswer l call assignTo answer) u.machine u'.machine := by
      rw [hu, hu']
      exact hplan.alike.takeAnswer hl' hg'
        (fun token heq => hlocal token (mem_of_ask hvalue token heq)) _ _
    refine Agrees.onMachine htaken (.pure htaken.alike ?_ _)
    exact hcalls'
  | enter name args =>
    have hvalue' := hplan.value.trans hvalue
    obtain ⟨thread, hthread, -⟩ := ((hsound.moves hedits.moves).backed hl').thread
    obtain ⟨reason, hreason⟩ := hq.recorded.execute_refused hsound hroom hl hvalue hstill
    obtain ⟨reason', hreason'⟩ : ∃ reason', h.recorded.script name { v' with
        machine := ((plan h.toSetting l).run v'.machine).state.moveCursor l.frame (l.index + 1) } =
        .error reason' := by
      rcases hstill' with hload | hstill'
      · exact ⟨reason, hload.recorded.script.trans hreason⟩
      · exact hq.recorded.execute_refused hsound' hroom' (halike.line hl) hvalue' hstill'
    exact hq.agrees_enter hplan.alike hcalls hl' (Table.contains_iff.2 ⟨thread, hthread⟩)
      hreason hreason'

/-- **The step of an invocation agrees** in two worlds that are alike for it. -/
theorem Quiet.agrees_stepInvocation (hq : h.Quiet) (hanswers : h.AnswersByCall)
    {u v : World (η × List Call)} {thread : Thread} (halike : Alike t g u.machine v.machine)
    (hcalls : v.own.2 = u.own.2) (hsound : u.machine.Sound) (hsound' : v.machine.Sound)
    (hroom : u.machine.Roomy) (hroom' : v.machine.Roomy)
    (ht : u.machine.threads.get? t = some thread) (hg : thread.target = g)
    (hlocal : u.machine.NextIsLocal t) (hpush : ¬ h.recorded.Pushes t u)
    (hpush' : h.LoadsByName ∨ ¬ h.recorded.Pushes t v) :
    h.Agrees t g (h.recorded.stepInvocation t) u v := by
  obtain ⟨f, below, hstack⟩ := hsound.exists_stack ht
  have ht' := halike.thread.trans ht
  have hbelow : thread.stack = f :: below := by
    rw [stackAt, ht] at hstack
    exact Option.some.inj hstack
  have hstack' : v.machine.stackAt t = some (f :: below) := by
    rw [stackAt, ht', Option.map_some, hbelow]
  have hprepare := halike.prepare hsound hsound' hstack
  have hrun := run_stepInvocation (h := h.recorded) hstack
  have hrun' := run_stepInvocation (h := h.recorded) hstack'
  rw [not_pushes_iff, after, hrun] at hpush
  rw [not_pushes_iff, after, hrun'] at hpush'
  have hstep : h.Agrees t g (h.recorded.step f) u v := by
    unfold step at hpush hpush' ⊢
    refine Agrees.onMachine (x := prepare f) hprepare ?_
    rw [Act.run_bind, World.run_liftM] at hpush
    rw [Act.run_bind, World.run_liftM, hprepare.value] at hpush'
    cases hvalue : ((prepare f).run u.machine).value with
    | error failure =>
      refine .pure hprepare.alike ?_ _
      exact hcalls
    | ok readied =>
      rw [hvalue] at hpush hpush'
      cases readied with
      | settled signal =>
        refine .pure hprepare.alike ?_ _
        exact hcalls
      | line l =>
        have horder : u.machine.InOrder t (f :: below) := hbelow ▸ hsound.inOrder ht
        have horder' : v.machine.InOrder t (f :: below) := hbelow ▸ hsound'.inOrder ht'
        obtain ⟨rfl, rfl, hnext, hstate⟩ := horder.line_of_prepare hvalue
        obtain ⟨-, -, -, hstate'⟩ := horder'.line_of_prepare (hprepare.value.trans hvalue)
        have hready := edits_readied u.machine l.frame
        have hready' := edits_readied v.machine l.frame
        have hready_alike := hprepare.alike
        rw [hstate, hstate'] at hready_alike
        rw [hstate] at hpush ⊢
        rw [hstate'] at hpush' ⊢
        refine hq.agrees_execute hanswers (hlocal l horder.frameOf hnext) hready_alike hcalls
          (hready.line hnext.stands) ?_ (hsound.moves hready.moves) (hsound'.moves hready'.moves)
          (hready.shrinks.roomy hroom) (hready'.shrinks.roomy hroom')
          (fun k hk => hpush k (hready.sameLinks.frame_gone hk))
          (hpush'.imp_right fun hpush' k hk => hpush' k (hready'.sameLinks.frame_gone hk))
        rw [hready.sameLinks.targetAt, targetAt, ht, Option.map_some, hg]
  refine hstep.of_run ?_ ?_ ⟨rfl, rfl⟩
  · rw [hrun]
    exact ⟨rfl, rfl⟩
  · rw [hrun']
    exact ⟨rfl, rfl⟩

end Host

namespace Machine

/-! ## The square -/

section

variable {m m₁ m₂ m₁₂ m₂₁ : Machine} {t₁ t₂ : ThreadHandle} {g₁ g₂ : TargetHandle}

/-- A step that makes no frame makes none after a step of another invocation. -/
theorem Apart.no_new_frame (h₁ : Apart t₁ m m₁) (h₂ : Apart t₂ m m₂) (hne : t₂ ≠ t₁)
    (hshrinks : Shrinks m m₂) (halike : Alike t₂ g₂ m₂ m₁₂) {k : FrameHandle} {frame : Frame}
    (hk : m₁.frames.get? k = none) (hk' : m₁₂.frames.get? k = some frame) : frame.thread ≠ t₂ := by
  intro hthread
  have hnew := (halike.frame k frame hthread).1 hk'
  cases hold : m.frames.get? k with
  | none =>
    rw [hshrinks.frames.gone k hold] at hnew
    cases hnew
  | some old =>
    -- the frame was there before, so it is a frame of the invocation, which the other one left
    -- alone
    by_cases hown : old.thread = t₂
    · rw [(h₁.frame k old (hown ▸ hne)).2 hold] at hk
      cases hk
    · rw [(h₂.frame k old hown).2 hold] at hnew
      cases hnew
      exact hown hthread

/-- **A square of steps** of two invocations on different targets, in either order. -/
structure Square (t₁ t₂ : ThreadHandle) (g₁ g₂ : TargetHandle) (m m₁ m₂ m₁₂ m₂₁ : Machine) :
    Prop where
  first : Apart t₁ m m₁
  second : Apart t₂ m m₂
  firstSecond : Apart t₂ m₁ m₁₂
  secondFirst : Apart t₁ m₂ m₂₁
  alikeFirst : Alike t₁ g₁ m₁ m₂₁
  alikeSecond : Alike t₂ g₂ m₂ m₁₂
  targetFirst : m.targetAt t₁ = some g₁
  targetSecond : m.targetAt t₂ = some g₂
  threads : t₁ ≠ t₂
  targets : g₁ ≠ g₂

namespace Square

variable (h : Square t₁ t₂ g₁ g₂ m m₁ m₂ m₁₂ m₂₁)

include h

/-! What belongs to an invocation is as its own step leaves it, and the rest is as it was. -/

/-- Whichever invocation goes first, the threads are the same at the end. -/
theorem get?_threads (k : ThreadHandle) : m₁₂.threads.get? k = m₂₁.threads.get? k := by
  by_cases hfirst : k = t₁
  · rw [hfirst, h.firstSecond.thread t₁ h.threads, h.alikeFirst.thread]
  · by_cases hsecond : k = t₂
    · rw [hsecond, h.alikeSecond.thread, h.secondFirst.thread t₂ h.threads.symm]
    · rw [h.firstSecond.thread k hsecond, h.first.thread k hfirst, h.secondFirst.thread k hfirst,
        h.second.thread k hsecond]

/-- So are the targets, each of which at most one of the two steps touches. -/
theorem get?_targets (g : TargetHandle) : m₁₂.targets.get? g = m₂₁.targets.get? g := by
  have htarget₁ : m₂.targetAt t₁ = some g₁ := by
    rw [targetAt, h.second.thread t₁ h.threads]
    exact h.targetFirst
  have htarget₂ : m₁.targetAt t₂ = some g₂ := by
    rw [targetAt, h.first.thread t₂ h.threads.symm]
    exact h.targetSecond
  have hother : ∀ {m : Machine} {t : ThreadHandle} {g' : TargetHandle}, m.targetAt t = some g' →
      g ≠ g' → m.targetAt t ≠ some g := by
    intro m t g' htarget hne heq
    rw [htarget] at heq
    exact hne (Option.some.inj heq).symm
  by_cases hfirst : g = g₁
  · rw [h.firstSecond.target g (hother htarget₂ (hfirst ▸ h.targets)), hfirst, h.alikeFirst.target]
  · by_cases hsecond : g = g₂
    · rw [h.secondFirst.target g (hother htarget₁ hfirst), hsecond, h.alikeSecond.target]
    · rw [h.firstSecond.target g (hother htarget₂ hsecond),
        h.first.target g (hother h.targetFirst hfirst), h.secondFirst.target g
          (hother htarget₁ hfirst), h.second.target g (hother h.targetSecond hsecond)]

/-- So are the frames, each of which belongs to at most one of the two invocations. -/
theorem get?_frames (k : FrameHandle) (frame : Frame) :
    m₁₂.frames.get? k = some frame ↔ m₂₁.frames.get? k = some frame := by
  by_cases hfirst : frame.thread = t₁
  · rw [h.firstSecond.frame k frame (hfirst ▸ h.threads), h.alikeFirst.frame k frame hfirst]
  · by_cases hsecond : frame.thread = t₂
    · rw [h.alikeSecond.frame k frame hsecond, h.secondFirst.frame k frame hfirst]
    · rw [h.firstSecond.frame k frame hsecond, h.first.frame k frame hfirst,
        h.secondFirst.frame k frame hfirst, h.second.frame k frame hsecond]

/-- The commands of a frame that is left. -/
theorem get?_commands {k : FrameHandle} {frame : Frame} (hk : m₁₂.frames.get? k = some frame)
    {c : CommandHandle} (hc : c ∈ frame.commands) : m₁₂.commands.get? c = m₂₁.commands.get? c := by
  have hk' := (h.get?_frames k frame).1 hk
  by_cases hfirst : frame.thread = t₁
  · have hold := (h.alikeFirst.frame k frame hfirst).1 hk'
    rw [h.firstSecond.command k frame hold (hfirst ▸ h.threads) c hc,
      h.alikeFirst.command k frame hold hfirst c hc]
  · have hold₂ := (h.secondFirst.frame k frame hfirst).1 hk'
    by_cases hsecond : frame.thread = t₂
    · rw [h.alikeSecond.command k frame hold₂ hsecond c hc,
        h.secondFirst.command k frame hold₂ hfirst c hc]
    · have hold₁ := (h.firstSecond.frame k frame hsecond).1 hk
      have hold := (h.first.frame k frame hfirst).1 hold₁
      rw [h.firstSecond.command k frame hold₁ hsecond c hc,
        h.first.command k frame hold hfirst c hc, h.secondFirst.command k frame hold₂ hfirst c hc,
        h.second.command k frame hold hsecond c hc]

/-- **Two steps in either order lead to the same machine.** -/
theorem machine_eq (hsound₁₂ : m₁₂.Sound) (hsound₂₁ : m₂₁.Sound) (hshrinks₁₂ : Shrinks m m₁₂)
    (hshrinks₂₁ : Shrinks m m₂₁) (hglobals : m₁₂.globals = m₂₁.globals) : m₁₂ = m₂₁ := by
  refine ext_tables (Table.ext_get? ?_ h.get?_targets) (Table.ext_get? ?_ h.get?_threads)
    (Table.ext_get? ?_ fun k => Option.ext (h.get?_frames k))
    (Table.ext_get? ?_ fun c => Option.ext fun command => ⟨fun hc => ?_, fun hc => ?_⟩) hglobals
  · exact hshrinks₁₂.targets.next.trans hshrinks₂₁.targets.next.symm
  · exact hshrinks₁₂.threads.next.trans hshrinks₂₁.threads.next.symm
  · exact hshrinks₁₂.frames.next.trans hshrinks₂₁.frames.next.symm
  · exact hshrinks₁₂.commands.next.trans hshrinks₂₁.commands.next.symm
  · -- every command belongs to a frame
    obtain ⟨k, frame, hk, hmem⟩ := hsound₁₂.owned.frame_of_command hc
    exact (h.get?_commands hk hmem).symm.trans hc
  · obtain ⟨k, frame, hk, hmem⟩ := hsound₂₁.owned.frame_of_command hc
    exact (h.get?_commands ((h.get?_frames k frame).2 hk) hmem).trans hc

end Square

end

end Machine

namespace Host

variable {η : Type} {h : Host η} {w w' : World η} {t : ThreadHandle} {g : TargetHandle}

open Machine

/-! ## Steps that do not affect each other -/

/-- The calls that the step of an invocation dispatches. -/
def callsOf (h : Host η) (t : ThreadHandle) (w : World η) : List Call :=
  ((h.recorded.stepInvocation t).run (w.keeping [])).state.own.2

/-- **The step of an invocation is the same in two worlds**: it gives the same signal and dispatches
the same calls. If it fails in one it fails in the other, and the failures are the same if scripts
are found by their names alone. -/
structure SameStep (h : Host η) (t : ThreadHandle) (w w' : World η) : Prop where
  signal : ((h.stepInvocation t).run w').value.toOption =
    ((h.stepInvocation t).run w).value.toOption
  calls : h.callsOf t w' = h.callsOf t w
  reply : h.LoadsByName → ((h.stepInvocation t).run w').value = ((h.stepInvocation t).run w).value

/-- Keeping the calls changes neither the reply nor the machine. -/
theorem step_recorded (h : Host η) (t : ThreadHandle) (w : World η) :
    ((h.recorded.stepInvocation t).run (w.keeping [])).value = ((h.stepInvocation t).run w).value ∧
      ((h.recorded.stepInvocation t).run (w.keeping [])).state.machine = (h.after t w).machine := by
  obtain ⟨asked, -, hrun⟩ := Records.stepInvocation (h := h) t w []
  rw [hrun]
  exact ⟨rfl, rfl⟩

/-- Whether a step pushes a frame does not depend on whether calls are kept. -/
theorem pushes_recorded : h.recorded.Pushes t (w.keeping []) ↔ h.Pushes t w := by
  rw [Pushes, Pushes, after, (step_recorded h t w).2]
  rfl

/-- **The step of an invocation is unaffected** by what made one world of the other. -/
structure Unaffected (h : Host η) (t : ThreadHandle) (g : TargetHandle) (w w' : World η) :
    Prop where
  same : h.SameStep t w w'
  alike : Alike t g (h.after t w).machine (h.after t w').machine
  confined : Confined t w'.machine (h.after t w').machine
  globals : (h.after t w).machine.globals = w.machine.globals ∧
    (h.after t w').machine.globals = w'.machine.globals

/-- **A step does not affect the step of an invocation on another target.** -/
theorem Quiet.unaffected (hq : h.Quiet) (hanswers : h.AnswersByCall) {k : ThreadHandle}
    {thread other : Thread} (hsound : w.machine.Sound) (hroom : w.machine.Roomy)
    (ht : w.machine.threads.get? t = some thread) (hk : w.machine.threads.get? k = some other)
    (hne : thread.target ≠ other.target) (hlocal : w.machine.NextIsLocal t) (hpush : ¬ h.Pushes t w)
    (hpush_other : ¬ h.Pushes k w) (hlater : h.LoadsByName ∨ ¬ h.Pushes t (h.after k w)) :
    h.Unaffected t thread.target w (h.after k w) := by
  have htk : t ≠ k := by
    rintro rfl
    rw [ht] at hk
    cases hk
    exact hne rfl
  have hown := hq.confined hsound hroom ht hpush
  have hother := hq.confined hsound hroom hk hpush_other
  have halike : Alike t thread.target w.machine (h.after k w).machine := by
    refine hother.apart.alike htk fun heq => hne ?_
    rw [targetAt, hk] at heq
    exact (Option.some.inj heq).symm
  have hroom' := hother.shrinks.roomy hroom
  have hagrees :=
    hq.agrees_stepInvocation (u := w.keeping []) (v := (h.after k w).keeping []) hanswers
    halike rfl hsound hother.sound hroom hroom' ht rfl hlocal (pushes_recorded.not.2 hpush)
    (hlater.imp_right pushes_recorded.not.2)
  obtain ⟨hvalue, hmachine⟩ := step_recorded h t w
  obtain ⟨hvalue', hmachine'⟩ := step_recorded h t (h.after k w)
  have hstep := hagrees.alike
  have hglobals := hagrees.globals
  rw [hmachine, hmachine'] at hstep hglobals
  refine ⟨⟨?_, hagrees.calls, fun hload => ?_⟩, hstep, ?_, hglobals⟩
  · rw [← hvalue, ← hvalue', hagrees.signal]
  · rw [← hvalue, ← hvalue', hagrees.reply hload]
  · exact hq.confined_of_not_pushed hother.sound hroom' (halike.thread.trans ht)
      fun f frame hf hf' => hother.apart.no_new_frame hown.apart htk hown.shrinks hstep hf hf'

end Host

namespace Machine

/-- **Independent steps commute.** The invocations run on different targets, their lines name no
global variable and make no frame. Where a script is found or not by more than its name, that no
frame is made has to hold in both orders. -/
theorem Reachable.steps_commute {η : Type} {h : Host η} {w : World η} {t₁ t₂ : ThreadHandle}
    {thread₁ thread₂ : Thread} (hreach : w.machine.Reachable) (hq : h.Quiet)
    (hanswers : h.AnswersByCall) (ht₁ : w.machine.threads.get? t₁ = some thread₁)
    (ht₂ : w.machine.threads.get? t₂ = some thread₂) (hne : thread₁.target ≠ thread₂.target)
    (hlocal₁ : w.machine.NextIsLocal t₁) (hlocal₂ : w.machine.NextIsLocal t₂)
    (hpush₁ : ¬ h.Pushes t₁ w) (hpush₂ : ¬ h.Pushes t₂ w)
    (hlater : h.LoadsByName ∨ ¬ h.Pushes t₁ (h.after t₂ w) ∧ ¬ h.Pushes t₂ (h.after t₁ w)) :
    (h.after t₂ (h.after t₁ w)).machine = (h.after t₁ (h.after t₂ w)).machine ∧
      h.SameStep t₁ w (h.after t₂ w) ∧ h.SameStep t₂ w (h.after t₁ w) := by
  obtain ⟨hsound, hroom⟩ := hreach.sound_and_roomy
  have hfirst := hq.confined hsound hroom ht₁ hpush₁
  have hsecond := hq.confined hsound hroom ht₂ hpush₂
  have h₁ := hq.unaffected hanswers hsound hroom ht₁ ht₂ hne hlocal₁ hpush₁ hpush₂
    (hlater.imp_right And.left)
  have h₂ := hq.unaffected hanswers hsound hroom ht₂ ht₁ hne.symm hlocal₂ hpush₂ hpush₁
    (hlater.imp_right And.right)
  have hthreads : t₁ ≠ t₂ := by
    rintro rfl
    rw [ht₁] at ht₂
    cases ht₂
    exact hne rfl
  have hsquare : Square t₁ t₂ thread₁.target thread₂.target w.machine (h.after t₁ w).machine
      (h.after t₂ w).machine (h.after t₂ (h.after t₁ w)).machine
      (h.after t₁ (h.after t₂ w)).machine :=
    ⟨hfirst.apart, hsecond.apart, h₂.confined.apart, h₁.confined.apart, h₁.alike, h₂.alike,
      by rw [targetAt, ht₁]; rfl, by rw [targetAt, ht₂]; rfl, hthreads, hne⟩
  refine ⟨hsquare.machine_eq h₂.confined.sound h₁.confined.sound
    (hfirst.shrinks.trans h₂.confined.shrinks) (hsecond.shrinks.trans h₁.confined.shrinks) ?_,
    h₁.same, h₂.same⟩
  rw [h₂.globals.2, h₁.globals.1, h₁.globals.2, h₂.globals.1]

/-- A script was started on two entities. -/
def abroad : World (List Call) :=
  (((asking {}).perform (.start ⟨8⟩ "greet")).run greeting).state

theorem reachable_abroad : abroad.machine.Reachable := by
  have hroom : abroad.machine.Roomy := roomy_of_free 9 (by decide) (by decide +kernel)
  unfold abroad at hroom ⊢
  exact .perform (quiet_asking {}) reachable_greeting hroom

theorem nextIsLocal_abroad (t : ThreadHandle) : abroad.machine.NextIsLocal t := by
  have hall : ∀ e ∈ abroad.machine.commands.toList, ∀ token ∈ e.2.tokens,
      (TokenRef.of token).isGlobal = false := by decide +kernel
  intro l _ hnext token htoken
  obtain ⟨_, c, command, -, -, -, hcommand, -, -, htokens⟩ := hnext.stands
  exact hall (c, command) (Table.mem_toList_iff.2 hcommand) token (htokens ▸ htoken)

/-- A step makes no frame if all handles of frames were live before. -/
theorem not_pushes_of_handles {η : Type} {h : Host η} {w : World η} {t : ThreadHandle}
    (hall : ∀ k ∈ (h.after t w).machine.frames.handles, w.machine.frames.contains k = true) :
    ¬ h.Pushes t w := by
  rintro ⟨k, hk, hk'⟩
  have hlive := hall k (Table.mem_handles_iff.2 (Option.isSome_iff_ne_none.2 hk'))
  rw [Table.contains_eq, hk] at hlive
  cases hlive

/-- Both invocations ask for a name, and it does not matter which of them asks first. -/
theorem abroad_commute : abroad.machine.Reachable ∧ (asking {}).Quiet ∧ (asking {}).AnswersByCall ∧
    (asking {}).LoadsByName ∧ (∀ t, abroad.machine.NextIsLocal t) ∧
    ¬ (asking {}).Pushes ⟨1⟩ abroad ∧ ¬ (asking {}).Pushes ⟨2⟩ abroad ∧
    ((asking {}).callsOf ⟨1⟩ abroad).length = 1 ∧
    ((asking {}).after ⟨2⟩ ((asking {}).after ⟨1⟩ abroad)).machine =
      ((asking {}).after ⟨1⟩ ((asking {}).after ⟨2⟩ abroad)).machine ∧
    (asking {}).SameStep ⟨1⟩ abroad ((asking {}).after ⟨2⟩ abroad) ∧
    (asking {}).SameStep ⟨2⟩ abroad ((asking {}).after ⟨1⟩ abroad) := by
  have hanswers : (asking {}).AnswersByCall := fun _ _ _ => rfl
  have hload : (asking {}).LoadsByName := fun _ _ _ => rfl
  have hpush₁ : ¬ (asking {}).Pushes ⟨1⟩ abroad := not_pushes_of_handles (by decide +kernel)
  have hpush₂ : ¬ (asking {}).Pushes ⟨2⟩ abroad := not_pushes_of_handles (by decide +kernel)
  have htarget₁ : (abroad.machine.threads.get? ⟨1⟩).map Thread.target = some ⟨1⟩ := by
    decide +kernel
  have htarget₂ : (abroad.machine.threads.get? ⟨2⟩).map Thread.target = some ⟨2⟩ := by
    decide +kernel
  obtain ⟨thread₁, hthread₁, heq₁⟩ := Option.map_eq_some_iff.1 htarget₁
  obtain ⟨thread₂, hthread₂, heq₂⟩ := Option.map_eq_some_iff.1 htarget₂
  have hne : thread₁.target ≠ thread₂.target := by
    rw [heq₁, heq₂]
    decide
  exact ⟨reachable_abroad, quiet_asking {}, hanswers, hload, nextIsLocal_abroad, hpush₁, hpush₂,
    by decide +kernel,
    reachable_abroad.steps_commute (quiet_asking {}) hanswers hthread₁ hthread₂ hne
      (nextIsLocal_abroad _) (nextIsLocal_abroad _) hpush₁ hpush₂ (.inl hload)⟩

end Machine

end StepScript
