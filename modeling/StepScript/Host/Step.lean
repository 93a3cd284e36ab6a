import StepScript.Host.Basic

/-!
# Host/Step — running scripts

The operations that may ask the host: starting a script on an entity, and executing one command of
an invocation. Between two commands nothing runs; an invocation advances only when it is stepped.

* `start` — runs a script on an entity; a failed start leaves no object behind.
* `step`, `stepInvocation` — executes at most one command.
* `completeCall` — hands in the result of a call that the host promised to complete.
-/

namespace StepScript

namespace Machine

/-! ## Before a command -/

/-- What a frame is ready for: nothing, as the signal says, or a line. -/
inductive Readied where
  | settled (signal : Signal)
  | line (l : Line)
deriving DecidableEq

/-- The command at a frame's cursor. A command that is gone is skipped. -/
def loadLine (t : ThreadHandle) (f : FrameHandle) : Act Machine (Except Failure Readied) := do
  let m ← get
  match m.frames.get? f with
  | none => return .error (Cause.staleFrame f).failure
  | some frame =>
    match frame.commands[frame.cursor]?.bind m.commands.get? with
    | none =>
      Act.report (.lostCommand frame.script f frame.cursor)
      set (m.moveCursor f (frame.cursor + 1))
      return .ok (.settled .pending)
    | some c =>
      return .ok (.line {
        thread := t, frame := f, index := frame.cursor, count := frame.commands.length,
        source := ⟨frame.script, c.line⟩, tokens := c.tokens })

/-- **Readies a frame for a step.** A frame that is gone, not innermost or waiting for the host does
nothing; an exhausted one leaves its stack. -/
def prepare (f : FrameHandle) : Act Machine (Except Failure Readied) := do
  let m ← get
  match m.frames.get? f with
  | none => return .ok (.settled .idle)
  | some frame =>
    match ← threadOf f with
    | .error failure => return .error failure
    | .ok t =>
      if m.frameOf t ≠ some f then return .ok (.settled .idle)
      else if frame.pending.isSome then return .ok (.settled .idle)
      else
        match ← ensureReady f with
        | .error failure => return .error failure
        | .ok .exhausted => return .ok (.settled (← popFrame t f))
        | .ok _ => loadLine t f

/-! ## After a command -/

/-- Goes on where a flow says. -/
def follow (l : Line) (flow : Flow) : Act Machine Unit :=
  modify fun m => m.moveCursor l.frame <|
    match flow with
    | .next => l.index + 1
    | .jump index => index

/-- **Takes the host's answer to a call.** A result is kept in the frame and assigned; a promise
parks the frame past the line; a refusal is reported and the line has no effect. -/
def takeAnswer (l : Line) (call : Call) (assignTo : Option String)
    (answer : Except Failure Completion) : Act Machine Signal := do
  match answer with
  | .ok (.ready value) =>
    modify (·.modifyFrame l.frame fun frame => { frame with result := value })
    match assignTo with
    | some token => let _ ← assignToken l.vantage token value
    | none => pure ()
    follow l .next
    return .pending
  | .ok .pending =>
    modify (·.modifyFrame l.frame fun frame =>
      { frame with
        cursor := l.index + 1
        readiness := .unknown
        pending := some { function := call.name, source := l.source, assignTo } })
    return .idle
  | .error failure =>
    follow l (← warn l (.commandFailed call.name failure))
    return .pending

/-- **Completes a call** that the host promised to complete. -/
def completeCall (f : FrameHandle) (result : String) : Act Machine (Except Failure Unit) := do
  let m ← get
  match m.frames.get? f with
  | none => return .error (Cause.staleFrame f).failure
  | some frame =>
    match frame.pending with
    | none => return .error (Cause.notWaiting f).failure
    | some call =>
      set (m.modifyFrame f fun frame => { frame with result, pending := none })
      match call.assignTo with
      | none => return .ok ()
      | some token =>
        match ← threadOf f with
        | .error failure => return .error failure
        | .ok t =>
          let _ ← assignToken ⟨t, some f, .source call.source⟩ token result
          return .ok ()

end Machine

namespace Host

variable {η : Type} (h : Host η)

/-! ## Entering scripts -/

/-- **Finds a script and puts it on top of an invocation's stack.** -/
def pushFrame (t : ThreadHandle) (name : String) (args : List String) :
    Act (World η) (Except Failure FrameHandle) := do
  match ← h.load name with
  | .error failure => return .error failure
  | .ok located =>
    match Script.read name located.dialect located.text with
    | .error failure => return .error failure
    | .ok (script, warnings) =>
      Act.reportAll warnings
      Machine.pushScript t script args

/-- **Starts a script on an entity.** The entity's target is made if there is none. -/
def start (entity : EntityId) (name : String) : Act (World η) (Except Failure ThreadHandle) := do
  let m ← World.getMachine
  let ((g, created), targets) :=
    m.targets.findOrCreate (fun target => target.entity = some entity) { entity := some entity }
  let (t, threads) := m.threads.create { target := g, script := name }
  World.modifyMachine fun m => { m with targets, threads }
  match ← h.pushFrame t name [] with
  | .error failure =>
    Act.report (.startFailed name entity failure)
    World.modifyMachine fun m =>
      { m with
        threads := m.threads.erase t
        targets := if created then m.targets.eraseIf g (·.threads.isEmpty) else m.targets }
    return .error failure
  | .ok _ =>
    let m ← World.getMachine
    if m.targets.contains g then
      World.modifyMachine (·.modifyTarget g fun target =>
        { target with threads := target.threads ++ [t] })
      return .ok t
    else
      World.modifyMachine (·.cleanup t)
      return .error (Cause.vanishedTarget g).failure

/-! ## Stepping -/

/-- Enters the script of a `call`. The caller's cursor has moved past the line by then. -/
def enter (l : Line) (name : String) (args : List String) :
    Act (World η) (Except Failure Signal) := do
  World.modifyMachine (·.moveCursor l.frame (l.index + 1))
  match ← h.pushFrame l.thread name args with
  | .ok _ => return .ok .pending
  | .error failure =>
    Act.report (.callFailed l.source name failure)
    return .error ((Cause.callFailed name failure.cause).failureAt l.source)

/-- **Executes a line.** -/
def execute (l : Line) : Act (World η) (Except Failure Signal) := do
  match ← Machine.plan h.toSetting l with
  | .go flow =>
    Machine.follow l flow
    return .ok .pending
  | .ask call assignTo =>
    let answer ← h.dispatch call
    return .ok (← Machine.takeAnswer l call assignTo answer)
  | .enter name args => h.enter l name args

/-- **Steps a frame**: executes at most one command. -/
def step (f : FrameHandle) : Act (World η) (Except Failure Signal) := do
  match ← Machine.prepare f with
  | .error failure => return .error failure
  | .ok (.settled signal) => return .ok signal
  | .ok (.line l) => h.execute l

/-- **Steps an invocation**: its innermost frame. -/
def stepInvocation (t : ThreadHandle) : Act (World η) (Except Failure Signal) := do
  match (← World.getMachine).threads.get? t with
  | none => return .ok .idle
  | some thread =>
    match thread.top? with
    | some f => h.step f
    | none =>
      Act.report (.emptyStack t)
      World.modifyMachine (·.cleanup t)
      return .ok .finished

end Host

end StepScript
