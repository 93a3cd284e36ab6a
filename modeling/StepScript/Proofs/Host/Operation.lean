import StepScript.Proofs.Machine.Moves

/-!
# Proofs/Host/Operation — what a host does with a machine

A host drives a machine by operations, one after the other. A *quiet* host leaves the machine alone
while it is being asked for a function or a script. With such a host every operation comes to a
sequence of the changes of `Machine.Move`.

* `Operation`, `Host.perform` — the operations and what they reply.
* `Host.Quiet` — the host does not touch the machine while it answers.
* `Host.Quiet.run_pushFrame`, `Host.Quiet.run_start` — entering and starting a script.
* `Host.moves_perform` — an operation is a sequence of changes.
* `Host.Stepped` — the ways in which the step of an invocation can go.
-/

namespace StepScript

/-- **What a host can ask of a machine.** -/
inductive Operation where
  | start (entity : EntityId) (name : String)
  | step (f : FrameHandle)
  | stepInvocation (t : ThreadHandle)
  | complete (f : FrameHandle) (result : String)
  | setVariable (t : ThreadHandle) (token value : String)
  | setGlobal (name value : String)
  | claim
  | cleanup (t : ThreadHandle)
  | reset
deriving DecidableEq

/-- What the machine replies. -/
inductive Reply where
  | started (result : Except Failure ThreadHandle)
  | stepped (result : Except Failure Signal)
  | completed (result : Except Failure Unit)
  | assigned (value : Option String)
  | claimed (thread : Option ThreadHandle)
  | done
deriving DecidableEq

namespace World

variable {η α : Type}

/-- What is done to the machine alone leaves the host as it is. -/
@[simp] theorem run_liftM (x : Act Machine α) (w : World η) :
    (liftM x : Act (World η) α).run w =
      ⟨(x.run w.machine).value, { w with machine := (x.run w.machine).state },
        (x.run w.machine).log⟩ := rfl

@[simp] theorem run_onMachine (x : Act Machine α) (w : World η) :
    (onMachine x : Act (World η) α).run w =
      ⟨(x.run w.machine).value, { w with machine := (x.run w.machine).state },
        (x.run w.machine).log⟩ := rfl

@[simp] theorem run_modifyMachine (f : Machine → Machine) (w : World η) :
    (modifyMachine f).run w = ⟨(), { w with machine := f w.machine }, []⟩ := rfl

/-- A change of the machine is seen by what follows it. -/
theorem run_modifyMachine_bind (f : Machine → Machine) (x : Unit → Act (World η) α) (w : World η) :
    (modifyMachine f >>= x).run w = (x ()).run { w with machine := f w.machine } := rfl

theorem run_getMachine_bind (f : Machine → Act (World η) α) (w : World η) :
    (getMachine >>= f).run w = (f w.machine).run w := rfl

end World

namespace Host

variable {η : Type} {h : Host η} {w : World η}

/-- **Performs an operation.** -/
def perform (h : Host η) : Operation → Act (World η) Reply
  | .start entity name => .started <$> h.start entity name
  | .step f => .stepped <$> h.step f
  | .stepInvocation t => .stepped <$> h.stepInvocation t
  | .complete f result => .completed <$> World.onMachine (Machine.completeCall f result)
  | .setVariable t token value => .assigned <$> World.onMachine (Machine.setVariable t token value)
  | .setGlobal name value => do
    World.modifyMachine (·.setGlobal name value)
    return .done
  | .claim => do
    let (thread, m) := (← World.getMachine).claimNext
    World.modifyMachine fun _ => m
    return .claimed thread
  | .cleanup t => do
    World.modifyMachine (·.cleanup t)
    return .done
  | .reset => do
    World.modifyMachine Machine.reset
    return .done

/-- The lines of the host's scripts can be numbered by a machine word. -/
def Numbered (h : Host η) : Prop :=
  ∀ name w located, ((h.load name).run w).value = .ok located → located.text.length < UInt64.size

/-- **The host leaves the machine alone** while it is being asked, and the lines of its scripts can
be numbered by a machine word. -/
structure Quiet (h : Host η) : Prop where
  dispatch : ∀ call w, ((h.dispatch call).run w).state.machine = w.machine
  load : ∀ name w, ((h.load name).run w).state.machine = w.machine
  text : ∀ name w located, ((h.load name).run w).value = .ok located →
    located.text.length < UInt64.size

/-! ## Entering and starting scripts -/

/-- The script that the host finds for a name, read, with the warnings about it. -/
def script (h : Host η) (name : String) (w : World η) : Except Failure (Script × List Diagnostic) :=
  match ((h.load name).run w).value with
  | .error failure => .error failure
  | .ok located => Script.read name located.dialect located.text

/-- A script that the host finds was read from a text, and its lines can be counted. -/
theorem Numbered.readable {name : String} {script : Script} {warnings : List Diagnostic}
    (htext : h.Numbered) (hscript : h.script name w = .ok (script, warnings)) :
    script.Readable := by
  unfold Host.script at hscript
  split at hscript
  · cases hscript
  · next located hlocated =>
    exact ⟨name, located.dialect, located.text, warnings, hscript, htext name w located hlocated⟩

namespace Quiet

theorem readable (hq : h.Quiet) {name : String} {script : Script} {warnings : List Diagnostic}
    (hscript : h.script name w = .ok (script, warnings)) : script.Readable :=
  Numbered.readable hq.text hscript

/-- **Entering a script** puts it on the stack, or changes nothing. -/
theorem run_pushFrame (hq : h.Quiet) {t : ThreadHandle} (name : String) (args : List String)
    (hlive : w.machine.threads.contains t = true) :
    (h.pushFrame t name args).run w =
      match h.script name w with
      | .error failure =>
        ⟨.error failure, ((h.load name).run w).state, ((h.load name).run w).log⟩
      | .ok (script, warnings) =>
        ⟨.ok w.machine.frames.fresh,
          { ((h.load name).run w).state with machine := w.machine.pushed t script args },
          ((h.load name).run w).log ++ warnings⟩ := by
  have hmachine := hq.load name w
  rw [← hmachine] at hlive ⊢
  simp only [pushFrame, Act.run_bind, Host.script]
  cases hload : ((h.load name).run w).value with
  | error failure => simp
  | ok located =>
    cases hread : Script.read name located.dialect located.text with
    | error failure => simp [hread]
    | ok result =>
      obtain ⟨script, warnings⟩ := result
      simp [hread, Machine.run_pushScript hlive]

/-- **Entering the script of a line** moves the caller's cursor, whether or not the script is
found. -/
theorem run_enter (hq : h.Quiet) {l : Line} (name : String) (args : List String)
    (hlive : w.machine.threads.contains l.thread = true) :
    (h.enter l name args).run w =
      match h.script name { w with machine := w.machine.moveCursor l.frame (l.index + 1) } with
      | .error failure =>
        ⟨.error ((Cause.callFailed name failure.cause).failureAt l.source),
          ((h.load name).run
            { w with machine := w.machine.moveCursor l.frame (l.index + 1) }).state,
          ((h.load name).run
            { w with machine := w.machine.moveCursor l.frame (l.index + 1) }).log ++
            [.callFailed l.source name failure]⟩
      | .ok (script, warnings) =>
        ⟨.ok .pending,
          { ((h.load name).run
            { w with machine := w.machine.moveCursor l.frame (l.index + 1) }).state with
            machine := (w.machine.moveCursor l.frame (l.index + 1)).pushed l.thread script args },
          ((h.load name).run
            { w with machine := w.machine.moveCursor l.frame (l.index + 1) }).log ++
            warnings⟩ := by
  have hpush :=
    hq.run_pushFrame (w := { w with machine := w.machine.moveCursor l.frame (l.index + 1) })
    name args hlive
  unfold enter
  rw [World.run_modifyMachine_bind, Act.run_bind, hpush]
  cases h.script name { w with machine := w.machine.moveCursor l.frame (l.index + 1) } with
  | error failure => rfl
  | ok result => simp

/-- A failed start takes away what it made. -/
theorem withdraw_opened {m : Machine} (hproper : m.Proper) (hroom : m.Roomy) (entity : EntityId)
    (name : String) :
    ({ m.opened entity name with
        threads := (m.opened entity name).threads.erase m.threads.fresh
        targets :=
          if (m.home entity).1.2 then
            (m.opened entity name).targets.eraseIf (m.home entity).1.1 (·.threads.isEmpty)
          else (m.opened entity name).targets } : Machine) = m.withdrawn entity := by
  have hthreads : (m.opened entity name).threads.erase m.threads.fresh = m.threads.skip :=
    Table.erase_create (Table.get?_fresh hproper.threads.next hroom.threads) _
  have htargets :
      (if (m.home entity).1.2 then
        (m.opened entity name).targets.eraseIf (m.home entity).1.1 (·.threads.isEmpty)
      else (m.opened entity name).targets)
        = if (m.home entity).1.2 then m.targets.skip else m.targets := by
    obtain ⟨target, -, -, -, ⟨-, heq⟩ | ⟨hdead, -, heq⟩⟩ :=
      Machine.home_spec hproper.targets hroom.targets entity
    · rw [Machine.opened, heq]
      rfl
    · rw [heq] at hdead
      simp only [Machine.opened, heq, if_true, Table.eraseIf]
      simp only [Table.get?_create, if_true, Option.any_some, List.isEmpty_nil]
      exact Table.erase_create hdead _
  rw [hthreads, htargets]
  rfl

/-- **Starting a script** makes an invocation, or moves counters only. -/
theorem run_start (hq : h.Quiet) (hproper : w.machine.Proper) (hroom : w.machine.Roomy)
    (entity : EntityId) (name : String) :
    (h.start entity name).run w =
      match h.script name { w with machine := w.machine.opened entity name } with
      | .error failure =>
        ⟨.error failure,
          { ((h.load name).run { w with machine := w.machine.opened entity name }).state with
            machine := w.machine.withdrawn entity },
          ((h.load name).run { w with machine := w.machine.opened entity name }).log ++
            [.startFailed name entity failure]⟩
      | .ok (script, warnings) =>
        ⟨.ok w.machine.threads.fresh,
          { ((h.load name).run { w with machine := w.machine.opened entity name }).state with
            machine := w.machine.started entity name script },
          ((h.load name).run { w with machine := w.machine.opened entity name }).log ++
              warnings⟩ := by
  have hlive :
      ({ w with machine := w.machine.opened entity name } : World η).machine.threads.contains
        w.machine.threads.fresh = true := by
    rw [Table.contains_eq]
    simp [Machine.opened]
  have hpush := hq.run_pushFrame name [] hlive
  have hmachine := hq.load name { w with machine := w.machine.opened entity name }
  unfold start
  rw [World.run_getMachine_bind]
  dsimp only
  rw [World.run_modifyMachine_bind]
  change ((h.pushFrame w.machine.threads.fresh name []) >>= _).run
    { w with machine := w.machine.opened entity name } = _
  cases hscript : h.script name { w with machine := w.machine.opened entity name } with
  | error failure =>
    rw [hscript] at hpush
    rw [Act.run_bind, hpush]
    simp only [Act.run_bind, Act.run_report, World.run_modifyMachine, Act.run_pure, List.append_nil]
    rw [hmachine]
    exact congrArg (fun m => Outcome.mk _ (World.mk m _) _)
      (withdraw_opened hproper hroom entity name)
  | ok result =>
    obtain ⟨script, warnings⟩ := result
    rw [hscript] at hpush
    have hhome : ((w.machine.opened entity name).pushed w.machine.threads.fresh script
        []).targets.contains (w.machine.home entity).1.1 = true := by
      obtain ⟨target, -, htarget, -⟩ := Machine.home_spec hproper.targets hroom.targets entity
      exact Table.contains_iff.2 ⟨target, htarget⟩
    rw [Act.run_bind, hpush]
    simp only [World.run_getMachine_bind]
    rw [Machine.home] at hhome
    rw [Act.run_ite, if_pos hhome]
    rw [World.run_modifyMachine_bind, Act.run_pure, List.append_nil]
    rfl

end Quiet

/-! ## The anatomy of a step -/

/-- The host makes the report itself, while it is being asked. -/
def Reports (h : Host η) (d : Diagnostic) : Prop :=
  (∃ call w, d ∈ ((h.dispatch call).run w).log) ∨ ∃ name w, d ∈ ((h.load name).run w).log

open Machine (Edits Changes Unwinds Moves)

/-- **What a step comes to**, if the host leaves the machine alone and the innermost frame `f` of
the invocation `t` does not wait: what the step replies, and the machine it leaves. -/
inductive Stepped (h : Host η) (t : ThreadHandle) (f : FrameHandle) (w : World η) :
    Except Failure Signal → Machine → Prop where
  /-- Nothing is left to run in the frame. -/
  | unwound {signal : Signal} {m' : Machine}
    (hnone : ∀ l : Line, l.frame = f → ¬ l.RunsNext w.machine)
    (hunwinds : Unwinds t (w.machine.readied f) signal m') : Stepped h t f w (.ok signal) m'
  /-- A line ran to its end. -/
  | went {l : Line} {m' : Machine} (hat : l.thread = t ∧ l.frame = f) (hl : l.RunsNext w.machine)
    (hchanges : Changes l (w.machine.readied f) m') (flow : Flow) :
    Stepped h t f w (.ok .pending) ((Machine.follow l flow).run m').state
  /-- The host was asked for a function. -/
  | asked {l : Line} {name : String} {args : List String} {assignTo : Option String}
    {answer : Except Failure Completion} (hat : l.thread = t ∧ l.frame = f)
    (hl : l.RunsNext w.machine)
    (hasks : l.Asks h.toSetting w.machine name args assignTo)
    (hanswer : ((h.dispatch (l.callOf h.toSetting w.machine name args)).run
      { w with machine := w.machine.readied f }).value = answer) :
    Stepped h t f w
      (.ok ((Machine.takeAnswer l (l.callOf h.toSetting w.machine name args) assignTo answer).run
        (w.machine.readied f)).value)
      ((Machine.takeAnswer l (l.callOf h.toSetting w.machine name args) assignTo answer).run
        (w.machine.readied f)).state
  /-- A script was entered. -/
  | entered {l : Line} {name : String} {args values : List String} {script : Script}
    {warnings : List Diagnostic} (hat : l.thread = t ∧ l.frame = f) (hl : l.RunsNext w.machine)
    (henters : l.Enters h.toSetting w.machine name args)
    (hscript : h.script name { w with machine := w.machine.moveCursor f (l.index + 1) } =
      .ok (script, warnings)) :
    Stepped h t f w (.ok .pending) ((w.machine.moveCursor f (l.index + 1)).pushed t script values)
  /-- A script could not be entered. -/
  | refused {l : Line} {name : String} {args : List String} {reason : Failure}
    (hat : l.thread = t ∧ l.frame = f) (hl : l.RunsNext w.machine)
    (henters : l.Enters h.toSetting w.machine name args)
    (hscript : h.script name { w with machine := w.machine.moveCursor f (l.index + 1) } =
      .error reason) :
    Stepped h t f w (.error ((Cause.callFailed name reason.cause).failureAt l.source))
      (w.machine.moveCursor f (l.index + 1))

/-- Reading a script warns of its text, never of broken links. -/
theorem intact_script {name : String} {script : Script} {warnings : List Diagnostic}
    (hscript : h.script name w = .ok (script, warnings)) :
    ∀ d ∈ warnings, d.isIntegrity = false := by
  unfold Host.script at hscript
  split at hscript
  · cases hscript
  · exact Script.intact_warnings hscript

/-- A report of a broken link among reports of which some are the host's. -/
theorem reports_append {own host : List Diagnostic} (hown : ∀ d ∈ own, d.isIntegrity = false)
    (hhost : ∀ d ∈ host, d.isIntegrity = true → h.Reports d) :
    ∀ d ∈ own ++ host, d.isIntegrity = true → h.Reports d := by
  refine List.forall_mem_append.2 ⟨fun d hd hintegrity => ?_, hhost⟩
  rw [hown d hd] at hintegrity
  cases hintegrity

/-- **Executing the line that runs next.** -/
theorem Quiet.stepped_execute (hq : h.Quiet) {l : Line} (hsound : w.machine.Sound)
    (hl : l.RunsNext w.machine) :
    h.Stepped l.thread l.frame w
        ((h.execute l).run { w with machine := w.machine.readied l.frame }).value
        ((h.execute l).run { w with machine := w.machine.readied l.frame }).state.machine ∧
      ∀ d ∈ ((h.execute l).run { w with machine := w.machine.readied l.frame }).log,
        d.isIntegrity = true → h.Reports d := by
  have hready := Machine.edits_readied w.machine l.frame
  have hin : l.In (w.machine.readied l.frame) := hready.line hl.stands
  have hbacked := (hsound.moves hready.moves).backed hin
  have hchanges := (Machine.Runs.plan h.toSetting).changes _ hin
  have hlog := (Machine.Runs.plan h.toSetting).intact _ hin hbacked
  unfold execute
  rw [Act.run_bind, World.run_liftM]
  rcases Machine.plan_cases h.toSetting l (w.machine.readied l.frame) with
    ⟨flow, hvalue⟩ | ⟨name, args, assignTo, hasks⟩ | ⟨name, args, henters⟩
  · simp only [hvalue]
    exact ⟨.went ⟨rfl, rfl⟩ hl hchanges flow, reports_append hlog (List.forall_mem_nil _)⟩
  · obtain ⟨hvalue, hstate⟩ := Machine.run_plan_of_asks hasks
    simp only [hvalue, hstate, Act.run_bind, World.run_liftM, Act.run_pure, List.append_nil,
      hq.dispatch, Line.callOf_readied]
    refine ⟨.asked ⟨rfl, rfl⟩ hl (Line.asks_readied.1 hasks) rfl,
      reports_append hlog (List.forall_mem_append.2 ⟨fun d hd _ => .inl ⟨_, _, hd⟩, ?_⟩)⟩
    intro d hd hintegrity
    rw [Machine.intact_takeAnswer hbacked _ _ _ d hd] at hintegrity
    cases hintegrity
  · obtain ⟨hvalue, hstate⟩ := Machine.run_plan_of_enters henters
    obtain ⟨thread, hthread, -⟩ := hbacked.thread
    have henters := Line.enters_readied.1 henters
    simp only [hvalue, hstate]
    rw [hq.run_enter (w := { w with machine := w.machine.readied l.frame }) name _
      (Table.contains_iff.2 ⟨thread, hthread⟩)]
    simp only [Machine.moveCursor_readied]
    cases hscript :
        h.script name { w with machine := w.machine.moveCursor l.frame (l.index + 1) } with
    | error reason =>
      refine ⟨?_,
        reports_append hlog (List.forall_mem_append.2 ⟨fun d hd _ => .inr ⟨_, _, hd⟩, ?_⟩)⟩
      · simp only [hq.load]
        exact .refused ⟨rfl, rfl⟩ hl henters hscript
      · intro d hd hintegrity
        rw [List.mem_singleton.1 hd] at hintegrity
        cases hintegrity
    | ok result =>
      obtain ⟨script, warnings⟩ := result
      refine ⟨.entered ⟨rfl, rfl⟩ hl henters hscript,
        reports_append hlog (List.forall_mem_append.2 ⟨fun d hd _ => .inr ⟨_, _, hd⟩, ?_⟩)⟩
      intro d hd hintegrity
      rw [intact_script hscript d hd] at hintegrity
      cases hintegrity

/-- **Stepping an innermost frame that does not wait.** The machine reports no broken link. -/
theorem Quiet.stepped (hq : h.Quiet) {t : ThreadHandle} {f : FrameHandle} {below : List FrameHandle}
    {frame : Frame} (hsound : w.machine.Sound) (hstack : w.machine.stackAt t = some (f :: below))
    (hf : w.machine.frames.get? f = some frame) (hpending : frame.pending = none) :
    h.Stepped t f w ((h.step f).run w).value ((h.step f).run w).state.machine ∧
      ∀ d ∈ ((h.step f).run w).log, d.isIntegrity = true → h.Reports d := by
  obtain ⟨thread, hthread, heq⟩ := Option.map_eq_some_iff.1 hstack
  have horder := hsound.inOrder hthread
  rw [heq] at horder
  unfold step
  rw [Act.run_bind, World.run_liftM]
  rcases horder.run_prepare hf hpending with
    ⟨l, rfl, rfl, hl, hrun⟩ | ⟨hnone, signal, m', hunwinds, hrun⟩
  · simp only [hrun, List.nil_append]
    exact hq.stepped_execute hsound hl
  · simp only [hrun]
    exact ⟨.unwound hnone hunwinds, List.forall_mem_nil _⟩

/-- **A step comes to a sequence of changes**, unless a table becomes full. -/
theorem Stepped.moves {t : ThreadHandle} {f : FrameHandle} {value : Except Failure Signal}
    {m' : Machine} (hstep : h.Stepped t f w value m') (hq : h.Quiet) (hsound : w.machine.Sound)
    (hroom : m'.Roomy) :
    Moves w.machine m' := by
  have hready := Machine.edits_readied w.machine f
  cases hstep with
  | unwound _ hunwinds => exact hready.moves.trans hunwinds.moves
  | went _ _ hchanges flow =>
    exact Edits.moves (hready.trans (hchanges.edits.trans (Machine.edits_follow _ flow _)))
  | asked hat hl =>
    obtain ⟨-, rfl⟩ := hat
    exact Edits.moves
      (hready.trans (Machine.edits_takeAnswer (fun _ => hready.line hl.stands) _ _ _))
  | entered hat hl _ hscript =>
    obtain ⟨rfl, rfl⟩ := hat
    obtain ⟨frame, -, -, hf, hthread, -⟩ := hl.stands
    obtain ⟨thread, ht, -⟩ := hsound.owned.thread_of_frame hf
    rw [← hthread] at ht
    exact .tail (.single (.edit (.frame hf (.move _)))) (.push ht (hq.readable hscript) hroom)
  | refused hat hl =>
    obtain ⟨-, rfl⟩ := hat
    obtain ⟨frame, -, -, hf, -⟩ := hl.stands
    exact .single (.edit (.frame hf (.move _)))

/-- **A step makes nothing new**, unless it enters a script. -/
theorem Stepped.shrinks_or_entered {t : ThreadHandle} {f : FrameHandle}
    {value : Except Failure Signal} {m' : Machine} (hstep : h.Stepped t f w value m') :
    Machine.Shrinks w.machine m' ∨ ∃ (l : Line) (name : String) (args values : List String)
      (script : Script) (warnings : List Diagnostic), (l.thread = t ∧ l.frame = f) ∧
      l.RunsNext w.machine ∧
        l.Enters h.toSetting w.machine name args ∧
        h.script name { w with machine := w.machine.moveCursor f (l.index + 1) } =
          .ok (script, warnings) ∧
        m' = (w.machine.moveCursor f (l.index + 1)).pushed t script values := by
  have hready := Machine.edits_readied w.machine f
  cases hstep with
  | unwound _ hunwinds => exact .inl (hready.shrinks.trans hunwinds.shrinks)
  | went _ _ hchanges flow =>
    exact .inl (Edits.shrinks (hready.trans (hchanges.edits.trans (Machine.edits_follow _ flow _))))
  | asked hat hl =>
    obtain ⟨-, rfl⟩ := hat
    exact .inl (Edits.shrinks
      (hready.trans (Machine.edits_takeAnswer (fun _ => hready.line hl.stands) _ _ _)))
  | entered hat hl henters hscript => exact .inr ⟨_, _, _, _, _, _, hat, hl, henters, hscript, rfl⟩
  | refused => exact .inl (Edits.shrinks (Machine.edits_modifyFrame fun _ _ => .move _))

/-! ## Operations as changes -/

/-- A frame that has nothing to do is stepped without any effect. -/
theorem run_step_of_idle {f : FrameHandle}
    (hidle : (Machine.prepare f).run w.machine = ⟨.ok (.settled .idle), w.machine, []⟩) :
    (h.step f).run w = ⟨.ok .idle, w, []⟩ := by
  unfold step
  rw [Act.run_bind, World.run_liftM, hidle]
  rfl

/-- **A step of a frame is idle**, or it is a step of an invocation whose innermost frame it is. -/
theorem Quiet.step_cases (hq : h.Quiet) (f : FrameHandle) (hsound : w.machine.Sound) :
    (h.step f).run w = ⟨.ok .idle, w, []⟩ ∨
      ∃ t below frame, w.machine.stackAt t = some (f :: below) ∧
        w.machine.frames.get? f = some frame ∧ frame.pending = none ∧
        h.Stepped t f w ((h.step f).run w).value ((h.step f).run w).state.machine := by
  rcases hsound.idle_or_innermost f with hidle | ⟨t, below, frame, horder, hf, hpending⟩
  · exact .inl (run_step_of_idle hidle)
  · exact .inr ⟨t, below, frame, horder.stack, hf, hpending,
      (hq.stepped hsound horder.stack hf hpending).1⟩

/-- **Stepping a frame** comes to a sequence of changes. -/
theorem moves_step (hq : h.Quiet) {f : FrameHandle} (hsound : w.machine.Sound)
    (hroom : ((h.step f).run w).state.machine.Roomy) :
    Moves w.machine ((h.step f).run w).state.machine := by
  rcases hq.step_cases f hsound with hidle | ⟨_, _, _, -, -, -, hstepped⟩
  · rw [hidle]
  · exact hstepped.moves hq hsound hroom

/-- Stepping an invocation is stepping its innermost frame. -/
theorem run_stepInvocation {t : ThreadHandle} {f : FrameHandle} {below : List FrameHandle}
    (hstack : w.machine.stackAt t = some (f :: below)) :
    (h.stepInvocation t).run w = (h.step f).run w := by
  obtain ⟨thread, hthread, heq⟩ := Option.map_eq_some_iff.1 hstack
  have htop : thread.top? = some f := by rw [Thread.top?, heq]; rfl
  unfold stepInvocation
  rw [World.run_getMachine_bind, hthread]
  simp only [htop]

/-- **Stepping an invocation** is idle if its innermost frame waits, and else a step of that
frame. -/
theorem Quiet.stepInvocation_cases (hq : h.Quiet) {t : ThreadHandle} {f : FrameHandle}
    {below : List FrameHandle} (hsound : w.machine.Sound)
    (hstack : w.machine.stackAt t = some (f :: below)) :
    ∃ frame, w.machine.frames.get? f = some frame ∧
      (frame.pending.isSome = true ∧ (h.stepInvocation t).run w = ⟨.ok .idle, w, []⟩ ∨
        frame.pending = none ∧
          h.Stepped t f w ((h.stepInvocation t).run w).value
            ((h.stepInvocation t).run w).state.machine ∧
          ∀ d ∈ ((h.stepInvocation t).run w).log, d.isIntegrity = true → h.Reports d) := by
  obtain ⟨thread, hthread, heq⟩ := Option.map_eq_some_iff.1 hstack
  have horder : w.machine.InOrder t (f :: below) := heq ▸ hsound.inOrder hthread
  obtain ⟨frame, hf, -⟩ := horder.frame f List.mem_cons_self
  refine ⟨frame, hf, ?_⟩
  rw [run_stepInvocation hstack]
  cases hpending : frame.pending with
  | none => exact .inr ⟨rfl, hq.stepped hsound hstack hf hpending⟩
  | some call =>
    exact .inl ⟨rfl, run_step_of_idle (horder.run_prepare_of_waiting hf (by rw [hpending]; rfl))⟩

/-- So is an invocation that is gone. -/
theorem run_stepInvocation_of_dead {t : ThreadHandle} (ht : w.machine.threads.get? t = none) :
    (h.stepInvocation t).run w = ⟨.ok .idle, w, []⟩ := by
  unfold stepInvocation
  rw [World.run_getMachine_bind, ht]
  rfl

/-- Stepping an invocation that has no frame cancels it. -/
theorem machine_stepInvocation_of_bare {t : ThreadHandle} (hbare : w.machine.frameOf t = none) :
    ((h.stepInvocation t).run w).state.machine = w.machine.cleanup t := by
  cases hthread : w.machine.threads.get? t with
  | none => rw [run_stepInvocation_of_dead hthread, Machine.cleanup_of_get?_eq_none hthread]
  | some thread =>
    rw [Machine.frameOf, hthread, Option.bind_some] at hbare
    unfold stepInvocation
    rw [World.run_getMachine_bind, hthread]
    dsimp only
    rw [hbare]
    rfl

/-- **A step of an invocation is made of moves**, as the step of its innermost frame is. -/
theorem moves_stepInvocation (hq : h.Quiet) {t : ThreadHandle} (hsound : w.machine.Sound)
    (hroom : ((h.stepInvocation t).run w).state.machine.Roomy) :
    Moves w.machine ((h.stepInvocation t).run w).state.machine := by
  cases ht : w.machine.threads.get? t with
  | none => rw [run_stepInvocation_of_dead ht]
  | some thread =>
    obtain ⟨f, below, hstack⟩ := hsound.exists_stack ht
    rw [run_stepInvocation hstack] at hroom ⊢
    exact moves_step hq hsound hroom

/-- **An operation of a quiet host comes to a sequence of changes**, as long as no table is full. -/
theorem moves_perform (hq : h.Quiet) (op : Operation) (hsound : w.machine.Sound)
    (hbefore : w.machine.Roomy) (hroom : ((h.perform op).run w).state.machine.Roomy) :
    Moves w.machine ((h.perform op).run w).state.machine := by
  cases op with
  | start entity name =>
    simp only [perform, Act.run_map] at hroom ⊢
    rw [hq.run_start hsound.proper hbefore] at hroom ⊢
    cases hscript : h.script name { w with machine := w.machine.opened entity name } with
    | error failure => exact .single (.withdraw entity)
    | ok result =>
      rw [hscript] at hroom
      exact .single (.start hbefore (hq.readable hscript) hroom)
  | step f =>
    simp only [perform, Act.run_map] at hroom ⊢
    exact moves_step hq hsound hroom
  | stepInvocation t =>
    simp only [perform, Act.run_map] at hroom ⊢
    exact moves_stepInvocation hq hsound hroom
  | complete f result =>
    simp only [perform, Act.run_map, World.run_onMachine]
    exact (Machine.edits_completeCall f result w.machine).moves
  | setVariable t token value =>
    simp only [perform, Act.run_map, World.run_onMachine]
    exact (Machine.edits_setVariable t token value w.machine).moves
  | setGlobal name value => exact .single (.edit (.globalVariable _ _))
  | claim =>
    simp only [perform, World.run_getMachine_bind]
    unfold Machine.claimNext
    split
    · exact .refl
    · exact .single (.claim _)
  | cleanup t => exact .single (.cleanup t)
  | reset => exact .single .reset

end Host

end StepScript
