import StepScript.Proofs.Host.Signal

/-!
# Proofs/Host/Promise — a promise kept is a result given

A host answers a call at once, or promises the result and completes the call later. The machine goes
two ways about it: a result is kept in the frame, assigned, and then the cursor moves; a promise
moves the cursor first, and completing the call keeps the result and assigns it from a vantage that
is built again. Both end in the same machine, whatever the result is assigned to.

* `Machine.complete_parked` — the two ways, on a machine.
* `Machine.Reachable.promise_kept` — a step that is promised a result and then given it is a step
  that is given the result; only the signal differs.
-/

namespace StepScript

namespace Machine

variable {m : Machine} {l : Line}

/-! ## Completing -/

/-- Variables and cursors are apart. -/
theorem assign_moveCursor (m : Machine) (f : FrameHandle) (index : Nat) (cell : Cell)
    (name value : String) :
    (m.moveCursor f index).assign cell name value =
      (m.assign cell name value).moveCursor f index := by
  cases cell with
  | frame k =>
    refine ext_tables rfl rfl (Table.ext_get? rfl fun e => ?_) rfl rfl
    simp only [assign, moveCursor, frames_modifyFrame, Table.get?_modify]
    by_cases hk : e = k
    · by_cases hf : e = f
      · simp only [if_pos hk, if_pos hf, Option.map_map]
        rfl
      · simp only [if_pos hk, if_neg hf]
    · simp only [if_neg hk]
  | _ => rfl

/-- It does not matter whether a value is delivered before the cursor moves or after. -/
theorem delivered_moveCursor (m : Machine) (f : FrameHandle) (index : Nat) (v : Vantage)
    (assignTo : Option String) (value : String) :
    (m.moveCursor f index).delivered v assignTo value =
      (m.delivered v assignTo value).moveCursor f index := by
  have hlinks : SameLinks m (m.moveCursor f index) := SameLinks.modifyFrame fun _ _ => ⟨rfl, rfl⟩
  unfold delivered
  rw [addressee_congr hlinks]
  cases m.addressee v assignTo with
  | none => rfl
  | some var => exact assign_moveCursor m f index var.1 var.2 value

/-- The frame waits past the line until the result is kept: it is as if the result had been kept and
the cursor moved. -/
theorem answered_parked (hl : l.In m) (hpending : m.pendingAt l.frame = none) (call : PendingCall)
    (value : String) :
    (m.parked l call).answered l.frame value =
      (m.resulted l.frame value).moveCursor l.frame (l.index + 1) := by
  obtain ⟨frame, c, -, hf, -, hc, -⟩ := hl
  have hnone : frame.pending = none := (pendingAt_of_get? hf).symm.trans hpending
  have hindex : min (l.index + 1) frame.commands.length = l.index + 1 :=
    Nat.min_eq_left (List.getElem?_eq_some_iff.1 hc).1
  refine ext_tables rfl rfl (Table.ext_get? rfl fun k => ?_) rfl rfl
  simp only [parked, answered, resulted, moveCursor, frames_modifyFrame, Table.get?_modify]
  by_cases hk : k = l.frame
  · simp only [hk, if_true, hf, Option.map_some, Frame.moveTo, hindex, hnone]
  · simp only [hk, if_false]

/-- **A promise and its completion come to the result.** -/
theorem complete_parked {thread : Thread} (hl : l.In m) (hpending : m.pendingAt l.frame = none)
    (hthread : m.threads.get? l.thread = some thread) (call : Call) (assignTo : Option String)
    (value : String) :
    ((completeCall l.frame value).run
      ((takeAnswer l call assignTo (.ok .pending)).run m).state).value = .ok () ∧
      ((completeCall l.frame value).run
        ((takeAnswer l call assignTo (.ok .pending)).run m).state).state =
        ((takeAnswer l call assignTo (.ok (.ready value))).run m).state := by
  obtain ⟨frame, -, -, hf, hown, -⟩ := id hl
  have hparked : (m.parked l ⟨call.name, l.source, assignTo⟩).frames.get? l.frame = some
      { frame with
        cursor := l.index + 1
        readiness := .unknown
        pending := some ⟨call.name, l.source, assignTo⟩ } := by
    rw [parked, frames_modifyFrame, Table.get?_modify, if_pos rfl, hf]
    rfl
  obtain ⟨hvalue, hstate⟩ := run_completeCall hparked (hown ▸ hthread) rfl value
  rw [run_takeAnswer_pending]
  refine ⟨hvalue, ?_⟩
  rw [hstate, answered_parked hl hpending, delivered_moveCursor,
    (run_takeAnswer_ready l call assignTo value m).2, Line.vantage, hown]

/-! ## Stepping -/

/-- Only one line of a frame runs next. -/
theorem FrameSound.eq_of_runsNext {frame : Frame} {l' : Line} (h : m.FrameSound frame)
    (hf : m.frames.get? l.frame = some frame) (hl : l.RunsNext m) (hl' : l'.RunsNext m)
    (hsame : l'.frame = l.frame) : l' = l := by
  have hindex : l'.index = l.index := by
    rw [← (h.scanOf_of_runsNext hf hl).2, ← (h.scanOf_of_runsNext (hsame ▸ hf) hl').2]
  obtain ⟨own, c, command, hown, hthread, hc, hget, hcount, hsource, htokens⟩ := hl.stands
  obtain ⟨own', c', command', hown', hthread', hc', hget', hcount', hsource', htokens'⟩ :=
    hl'.stands
  rw [hsame, hown] at hown'
  cases hown'
  rw [hindex, hc] at hc'
  cases hc'
  rw [hget] at hget'
  cases hget'
  cases l
  cases l'
  rw [Line.mk.injEq]
  exact ⟨hthread'.trans hthread.symm, hsame, hindex, hcount'.trans hcount.symm,
    hsource'.trans hsource.symm, htokens'.trans htokens.symm⟩

/-- **Readying a frame finds the line that runs next.** -/
theorem InOrder.run_prepare_of_runsNext {t : ThreadHandle} {below : List FrameHandle}
    (h : m.InOrder t (l.frame :: below)) (hpending : m.pendingAt l.frame = none)
    (hl : l.RunsNext m) :
    (prepare l.frame).run m = ⟨.ok (.line l), m.readied l.frame, []⟩ := by
  obtain ⟨frame, hf, -, hsound⟩ := h.frame l.frame List.mem_cons_self
  have hnone : frame.pending = none := (pendingAt_of_get? hf).symm.trans hpending
  rcases h.run_prepare hf hnone with ⟨l', hframe, -, hl', hrun⟩ | ⟨hnext, -⟩
  · rw [hrun, hsound.eq_of_runsNext hf hl hl' hframe]
  · exact absurd hl (hnext l rfl)

/-- In a sound machine, the line that is prepared for a frame is the one that runs next. -/
theorem Sound.runsNext_of_prepare {f : FrameHandle} (h : m.Sound)
    (hline : ((prepare f).run m).value = .ok (.line l)) : l.frame = f ∧ l.RunsNext m := by
  rcases h.idle_or_innermost f with hidle | ⟨t, below, frame, horder, hf, hpending⟩
  · rw [hidle] at hline
    cases hline
  · rcases horder.run_prepare hf hpending with ⟨l', hframe, -, hl', hrun⟩ | ⟨-, signal, m', -, hrun⟩
    · rw [hrun] at hline
      cases hline
      exact ⟨hframe, hl'⟩
    · rw [hrun] at hline
      cases hline

/-- An invocation that can be stepped has an innermost frame, and it does not wait. -/
theorem stackAt_of_standing {t : ThreadHandle} {f : FrameHandle}
    (hstanding : m.standing t = .pending) (htop : m.frameOf t = some f) :
    ∃ below, m.stackAt t = some (f :: below) ∧ m.pendingAt f = none := by
  obtain ⟨below, hstack⟩ := stackAt_of_frameOf htop
  refine ⟨below, hstack, ?_⟩
  rw [standing_of_stack hstack] at hstanding
  split at hstanding
  · cases hstanding
  · next hnone => exact Option.not_isSome_iff_eq_none.1 hnone

end Machine

namespace Host

variable {η : Type} {h : Host η} {w : World η} {t : ThreadHandle} {l : Line} {name : String}
  {args : List String} {assignTo : Option String}

open Machine

/-- What the host answers to the call of a line. -/
def answerTo (h : Host η) (w : World η) (l : Line) (name : String) (args : List String) :
    Except Failure Completion :=
  ((h.dispatch (l.callOf h.toSetting w.machine name args)).run
    { w with machine := w.machine.readied l.frame }).value

/-- **A step whose line asks** takes the host's answer, and does nothing else. -/
theorem Quiet.stepInvocation_of_asks (hq : h.Quiet) (hsound : w.machine.Sound)
    (hstanding : w.machine.standing t = .pending) (htop : w.machine.frameOf t = some l.frame)
    (hl : l.RunsNext w.machine) (hasks : l.Asks h.toSetting w.machine name args assignTo) :
    ((h.stepInvocation t).run w).value =
        .ok ((takeAnswer l (l.callOf h.toSetting w.machine name args) assignTo
          (h.answerTo w l name args)).run (w.machine.readied l.frame)).value ∧
      ((h.stepInvocation t).run w).state.machine =
        ((takeAnswer l (l.callOf h.toSetting w.machine name args) assignTo
          (h.answerTo w l name args)).run (w.machine.readied l.frame)).state := by
  obtain ⟨below, hstack, hpending⟩ := stackAt_of_standing hstanding htop
  obtain ⟨thread, hthread, heq⟩ := Option.map_eq_some_iff.1 hstack
  have horder := hsound.inOrder hthread
  rw [heq] at horder
  obtain ⟨hvalue, hstate⟩ := run_plan_of_asks (Line.asks_readied (f := l.frame).2 hasks)
  rw [run_stepInvocation hstack]
  unfold step
  rw [Act.run_bind, World.run_liftM, horder.run_prepare_of_runsNext hpending hl]
  simp only [execute]
  rw [Act.run_bind, World.run_liftM]
  simp only [hvalue, hstate, Act.run_bind, World.run_liftM, Act.run_pure, hq.dispatch,
    Line.callOf_readied]
  exact ⟨rfl, rfl⟩

end Host

namespace Machine

/-- **A promise kept is a result given.** The step that is promised a result says that the
invocation waits, and the step that is given it that the invocation can go on; when the promise is
kept the machines are equal. -/
theorem Reachable.promise_kept {η ζ : Type} {later : Host η} {now : Host ζ} {w : World η}
    {u : World ζ} {t : ThreadHandle} {l : Line} {name value : String} {args : List String}
    {assignTo : Option String} (hreach : w.machine.Reachable) (hlater : later.Quiet)
    (hnow : now.Quiet) (hsetting : now.toSetting = later.toSetting) (hsame : u.machine = w.machine)
    (hstanding : w.machine.standing t = .pending) (htop : w.machine.frameOf t = some l.frame)
    (hl : l.RunsNext w.machine) (hasks : l.Asks later.toSetting w.machine name args assignTo)
    (hpromise : later.answerTo w l name args = .ok .pending)
    (hresult : now.answerTo u l name args = .ok (.ready value)) :
    ((later.stepInvocation t).run w).value = .ok .idle ∧
      ((now.stepInvocation t).run u).value = .ok .pending ∧
      ((completeCall l.frame value).run ((later.stepInvocation t).run w).state.machine).value =
        .ok () ∧
      ((completeCall l.frame value).run ((later.stepInvocation t).run w).state.machine).state =
        ((now.stepInvocation t).run u).state.machine := by
  have hsound := hreach.sound
  have hready := edits_readied w.machine l.frame
  obtain ⟨below, hstack, hpending⟩ := stackAt_of_standing hstanding htop
  obtain ⟨hvalue, hstate⟩ := hlater.stepInvocation_of_asks hsound hstanding htop hl hasks
  rw [← hsame] at hsound hstanding htop hl hasks
  rw [← hsetting] at hasks
  obtain ⟨hvalue', hstate'⟩ := hnow.stepInvocation_of_asks hsound hstanding htop hl hasks
  rw [hsame] at hvalue' hstate' hl hsound
  rw [hpromise] at hvalue hstate
  rw [hresult, hsetting] at hvalue' hstate'
  have hin : l.In (w.machine.readied l.frame) := hready.line hl.stands
  obtain ⟨frame, -, -, hf, hown, -⟩ := hl.stands
  obtain ⟨thread, hthread, -⟩ := hsound.owned.thread_of_frame hf
  obtain ⟨hdone, hagree⟩ :=
    complete_parked hin ((pendingAt_readied _ _ _).trans hpending) (hown ▸ hthread)
    (l.callOf later.toSetting w.machine name args) assignTo value
  refine ⟨hvalue, ?_, ?_, ?_⟩
  · rw [hvalue', (run_takeAnswer_ready _ _ _ _ _).1]
  · rw [hstate, hdone]
  · rw [hstate, hstate', hagree]

/-- The line that asks for a name. -/
def askName : Line where
  thread := ⟨1⟩
  frame := ⟨1⟩
  index := 0
  count := 2
  source := ⟨"greet", 1⟩
  tokens := ["set", "$thread#name", "resultfrom", "ask", "name"]

/-- The host gives every result at once. -/
def naming : Host (List Call) := Host.fixed {} greet fun _ _ _ => .ok (.ready "Ann")

theorem quiet_naming : naming.Quiet := Host.quiet_fixed length_greet _

/-- The script that waits for the name is told it, and is where it would be had it not waited. -/
theorem greeting_promise_kept : greeting.machine.Reachable ∧ askName.RunsNext greeting.machine ∧
    askName.Asks {} greeting.machine "ask" ["name"] (some "$thread#name") ∧
    ((completeCall ⟨1⟩ "Ann").run waiting).state =
      ((naming.stepInvocation ⟨1⟩).run greeting).state.machine := by
  have hprepare : ((prepare ⟨1⟩).run greeting.machine).value = .ok (.line askName) := by
    decide +kernel
  have hl := (reachable_greeting.sound.runsNext_of_prepare hprepare).2
  have hfunction : askName.nameOf {} greeting.machine "ask" = "ask" := by decide +kernel
  have hasks : askName.Asks {} greeting.machine (askName.nameOf {} greeting.machine "ask") ["name"]
      (some "$thread#name") := .result rfl (by decide +kernel) (by decide +kernel)
  rw [hfunction] at hasks
  have hstanding : greeting.machine.standing ⟨1⟩ = .pending := by decide +kernel
  have htop : greeting.machine.frameOf ⟨1⟩ = some askName.frame := by decide +kernel
  have hpromise : (asking {}).answerTo greeting askName "ask" ["name"] = .ok .pending := rfl
  have hresult : naming.answerTo greeting askName "ask" ["name"] = .ok (.ready "Ann") := rfl
  have hagree :=
    reachable_greeting.promise_kept (quiet_asking {}) quiet_naming rfl rfl hstanding htop hl hasks
    hpromise hresult
  exact ⟨reachable_greeting, hl, hasks, hagree.2.2.2⟩

end Machine

end StepScript
