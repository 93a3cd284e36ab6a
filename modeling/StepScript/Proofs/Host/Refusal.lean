import StepScript.Proofs.Host.Overtaken
import StepScript.Proofs.Host.Promise

/-!
# Proofs/Host/Refusal — scripts that cannot be had

A script may not be found, or be found and not be readable. When that shows, a start has made an
invocation and perhaps a target, and a `call` has moved the cursor of its frame. The start takes
back what it made: only counters have moved. The `call` is over, and the frame goes on after it.

* `Host.Calls` — the next step of an invocation is a `call`.
* `Host.Quiet.run_step_of_calls` — what that step does.
* `Host.LeavesNoTrace` — nothing is left of a script that cannot be had.
-/

namespace StepScript

namespace Machine

variable {m : Machine}

/-- **A start that is taken back** moves counters only. -/
theorem SameObjects.withdrawn (m : Machine) (entity : EntityId) :
    SameObjects m (m.withdrawn entity) where
  targets g := by
    unfold Machine.withdrawn
    split
    · exact Table.get?_skip m.targets g
    · rfl
  threads := Table.get?_skip m.threads
  frames _ := rfl
  commands _ := rfl
  globals := rfl

/-- The cursor of a frame goes to the command after a line. -/
theorem moveCursor_after {l : Line} (hl : l.In m) :
    m.moveCursor l.frame (l.index + 1) =
      m.modifyFrame l.frame fun frame =>
        { frame with cursor := l.index + 1, readiness := .unknown } := by
  obtain ⟨frame, c, -, hf, -, hc, -⟩ := hl
  have hlength : l.index + 1 ≤ frame.commands.length := (List.getElem?_eq_some_iff.1 hc).1
  refine ext_tables rfl rfl (Table.ext_get? rfl fun k => ?_) rfl rfl
  rw [moveCursor, frames_modifyFrame, frames_modifyFrame, Table.get?_modify, Table.get?_modify]
  split
  · next hk =>
    rw [hk, hf, Option.map_some, Option.map_some, Frame.moveTo, Nat.min_eq_left hlength]
  · rfl

end Machine

namespace Host

variable {η : Type} {h : Host η} {w : World η} {l : Line} {name : String} {args : List String}

open Machine

/-! ## Steps that call -/

/-- **The next step of an invocation is a `call`**: the invocation can go on, and the line that runs
next in its innermost frame enters the script. -/
structure Calls (h : Host η) (w : World η) (l : Line) (name : String) (args : List String) :
    Prop where
  standing : w.machine.standing l.thread = .pending
  innermost : w.machine.frameOf l.thread = some l.frame
  next : l.RunsNext w.machine
  enters : l.Enters h.toSetting w.machine name args

/-- The script that the host finds when the line has run. -/
def scriptAfter (h : Host η) (w : World η) (l : Line) (name : String) :
    Except Failure (Script × List Diagnostic) :=
  h.script name { w with machine := w.machine.moveCursor l.frame (l.index + 1) }

/-- **A step that calls**, given as a step of the frame or of the invocation, enters the script or
fails. In both cases the cursor has gone to the command after the line. -/
theorem Quiet.run_step_of_calls (hq : h.Quiet) (hsound : w.machine.Sound)
    (hcalls : h.Calls w l name args) :
    (h.stepInvocation l.thread).run w = (h.step l.frame).run w ∧
      (∀ reason, h.scriptAfter w l name = .error reason →
        ((h.step l.frame).run w).value =
          .error ((Cause.callFailed name reason.cause).failureAt l.source) ∧
        ((h.step l.frame).run w).state.machine = w.machine.moveCursor l.frame (l.index + 1)) ∧
      ∀ script warnings, h.scriptAfter w l name = .ok (script, warnings) →
        ((h.step l.frame).run w).value = .ok .pending ∧
        ∃ values, ((h.step l.frame).run w).state.machine =
          (w.machine.moveCursor l.frame (l.index + 1)).pushed l.thread script values := by
  obtain ⟨below, hstack, hpending⟩ := stackAt_of_standing hcalls.standing hcalls.innermost
  obtain ⟨thread, hthread, heq⟩ := Option.map_eq_some_iff.1 hstack
  have horder := hsound.inOrder hthread
  rw [heq] at horder
  obtain ⟨hvalue, hstate⟩ := run_plan_of_enters (Line.enters_readied (f := l.frame).2 hcalls.enters)
  have henter := hq.run_enter (w := { w with machine := w.machine.readied l.frame }) name
    ((readTokens h.toSetting l.vantage args).run (w.machine.readied l.frame)).value
    (Table.contains_iff.2 ⟨thread, hthread⟩)
  simp only [moveCursor_readied] at henter
  have hstep : ((h.step l.frame).run w).value =
        ((h.enter l name ((readTokens h.toSetting l.vantage args).run
          (w.machine.readied l.frame)).value).run
            { w with machine := w.machine.readied l.frame }).value ∧
      ((h.step l.frame).run w).state =
        ((h.enter l name ((readTokens h.toSetting l.vantage args).run
          (w.machine.readied l.frame)).value).run
            { w with machine := w.machine.readied l.frame }).state := by
    unfold step
    rw [Act.run_bind, World.run_liftM, horder.run_prepare_of_runsNext hpending hcalls.next]
    simp only [execute]
    rw [Act.run_bind, World.run_liftM]
    simp only [hvalue, hstate, and_self]
  rw [hstep.1, hstep.2, henter]
  refine ⟨run_stepInvocation hstack, fun reason hscript => ?_, fun script warnings hscript => ?_⟩
  · rw [scriptAfter] at hscript
    rw [hscript]
    exact ⟨rfl, hq.load _ _⟩
  · rw [scriptAfter] at hscript
    rw [hscript]
    exact ⟨rfl, _, rfl⟩

/-! ## Scripts that cannot be had -/

/-- **Nothing is left of a script that cannot be had**, because it is not found or cannot be
read. -/
structure LeavesNoTrace (h : Host η) (w : World η) : Prop where
  /-- A start fails if its script cannot be had, and for no other reason. -/
  start : ∀ entity name failure, ((h.start entity name).run w).value = .error failure ↔
    h.script name { w with machine := w.machine.opened entity name } = .error failure
  /-- Then all objects are as they were, also if the entity had no target. Only counters of targets
  and invocations have moved. -/
  withdrawn : ∀ entity name failure, ((h.start entity name).run w).value = .error failure →
    SameObjects w.machine ((h.start entity name).run w).state.machine ∧
    ((h.start entity name).run w).state.machine.frames = w.machine.frames ∧
    ((h.start entity name).run w).state.machine.commands = w.machine.commands
  /-- A `call` fails if its script cannot be had. Then its frame has gone on to the next command,
  and nothing else has changed. -/
  call : ∀ l name args reason, h.Calls w l name args → h.scriptAfter w l name = .error reason →
    (h.stepInvocation l.thread).run w = (h.step l.frame).run w ∧
    ((h.step l.frame).run w).value =
      .error ((Cause.callFailed name reason.cause).failureAt l.source) ∧
    ((h.step l.frame).run w).state.machine =
      w.machine.modifyFrame l.frame fun frame =>
        { frame with cursor := l.index + 1, readiness := .unknown }

end Host

namespace Machine

/-- **A script that cannot be had leaves no trace**, whatever happened before. -/
theorem Reachable.leaves_no_trace {η : Type} {h : Host η} {w : World η}
    (hreach : w.machine.Reachable) (hq : h.Quiet) : h.LeavesNoTrace w := by
  obtain ⟨hsound, hroom⟩ := hreach.sound_and_roomy
  refine ⟨fun entity name failure => ?_, fun entity name failure hfails => ?_,
    fun l name args reason hcalls hscript => ?_⟩
  · rw [hq.run_start hsound.proper hroom]
    cases h.script name { w with machine := w.machine.opened entity name } with
    | error reason => simp only [Except.error.injEq]
    | ok result => exact iff_of_false (fun hfails => by cases hfails) fun hfails => by cases hfails
  · rw [hq.run_start hsound.proper hroom] at hfails ⊢
    cases hscript : h.script name { w with machine := w.machine.opened entity name } with
    | error reason => exact ⟨.withdrawn w.machine entity, rfl, rfl⟩
    | ok result =>
      rw [hscript] at hfails
      cases hfails
  · obtain ⟨hsame, hrefused, -⟩ := hq.run_step_of_calls hsound hcalls
    obtain ⟨hvalue, hmachine⟩ := hrefused reason hscript
    exact ⟨hsame, hvalue, hmachine.trans (moveCursor_after hcalls.next.stands)⟩

/-- The scripts of a host. One calls another, in which there is nothing to run. -/
def shelf (name : String) : Except Failure Located :=
  if name = "main" then .ok ⟨"main.scr", .line, "call blank\nsay done\n"⟩
  else if name = "blank" then .ok ⟨"blank.scr", .line, "; later\n"⟩
  else .error (Cause.notInMemory name).failure

/-- The host gives every result at once. -/
def librarian : Host (List Call) := Host.fixed {} shelf fun _ _ _ => .ok (.ready "")

theorem quiet_librarian : librarian.Quiet := by
  refine Host.quiet_fixed (fun name located hlocated => ?_) _
  unfold shelf at hlocated
  split at hlocated
  · cases hlocated
    decide +kernel
  · split at hlocated
    · cases hlocated
      decide +kernel
    · cases hlocated

/-- The script was started. -/
def borrowing : World (List Call) := ((librarian.perform (.start ⟨7⟩ "main")).run ⟨∅, []⟩).state

/-- The world in which the script is about to be refused is one that hosts can come to. -/
theorem reachable_borrowing : borrowing.machine.Reachable := by
  have hroom : borrowing.machine.Roomy := roomy_of_free 9 (by decide) (by decide +kernel)
  unfold borrowing at hroom ⊢
  exact .perform quiet_librarian .new hroom

/-- The line that calls. -/
def callBlank : Line where
  thread := ⟨1⟩
  frame := ⟨1⟩
  index := 0
  count := 2
  source := ⟨"main", 1⟩
  tokens := ["call", "blank"]

/-- A script that is not found is started on an entity without a target, and the script in which
there is nothing to run is called. -/
theorem borrowing_leaves_no_trace : borrowing.machine.Reachable ∧ librarian.Quiet ∧
    (borrowing.machine.home ⟨8⟩).1.2 = true ∧
    ((librarian.start ⟨8⟩ "missing").run borrowing).value =
      .error (Cause.notInMemory "missing").failure ∧
    SameObjects borrowing.machine ((librarian.start ⟨8⟩ "missing").run borrowing).state.machine ∧
    librarian.Calls borrowing callBlank "blank" [] ∧
    ((librarian.step callBlank.frame).run borrowing).value =
      .error ((Cause.callFailed "blank" (Cause.nothingToRun "blank").failure.cause).failureAt
        callBlank.source) ∧
    ((librarian.step callBlank.frame).run borrowing).state.machine =
      borrowing.machine.modifyFrame callBlank.frame fun frame =>
        { frame with cursor := callBlank.index + 1, readiness := .unknown } := by
  have hprepare : ((prepare ⟨1⟩).run borrowing.machine).value = .ok (.line callBlank) := by
    decide +kernel
  have hname : callBlank.nameOf {} borrowing.machine "blank" = "blank" := by decide +kernel
  have henters :
      callBlank.Enters {} borrowing.machine (callBlank.nameOf {} borrowing.machine "blank") [] :=
    .call rfl (by decide +kernel)
  rw [hname] at henters
  have hcalls : librarian.Calls borrowing callBlank "blank" [] :=
    ⟨by decide +kernel, by decide +kernel,
      (reachable_borrowing.sound.runsNext_of_prepare hprepare).2, henters⟩
  have hnew : (borrowing.machine.home ⟨8⟩).1.2 = true := by decide +kernel
  have hmissing : librarian.script "missing"
      { borrowing with machine := borrowing.machine.opened ⟨8⟩ "missing" } =
      .error (Cause.notInMemory "missing").failure := by decide +kernel
  have hblank : librarian.scriptAfter borrowing callBlank "blank" =
      .error (Cause.nothingToRun "blank").failure := by
    decide +kernel
  have hreach := reachable_borrowing
  have hq := quiet_librarian
  generalize librarian = h at *
  generalize borrowing = w at *
  have htrace := hreach.leaves_no_trace hq
  have hfails := (htrace.start ⟨8⟩ "missing" _).2 hmissing
  obtain ⟨-, hvalue, hmachine⟩ := htrace.call callBlank "blank" [] _ hcalls hblank
  exact ⟨hreach, hq, hnew, hfails, (htrace.withdrawn ⟨8⟩ "missing" _ hfails).1, hcalls,
    hvalue, hmachine⟩

end Machine

end StepScript
