import StepScript.Proofs.Host.Reachable
import StepScript.Proofs.Machine.Checked

/-!
# Proofs/Host/Bounds — a save that nobody vouches for can be run

The operations of a host, with every index checked as in `StepScript.Proofs.Machine.Checked`. From a
save that could be read, whatever is in it, every run of a quiet host stays within bounds: no
operation meets a fault, so none takes an index that is out of range and none goes on for ever, and
a frame that has run a line is left with a cursor among its commands or just past them.

* `Checked.perform` — the operations with every index checked.
* `Host.Quiet.safe_perform`, `Host.Quiet.bounded_perform` — on a machine within bounds they meet no
  fault, and leave one within bounds.
* `Machine.Resumed` — the machines of a run from a loaded one.
* `Machine.Countable.runs_in_bounds`.
-/

namespace StepScript

/-- The numbers of the lines that commands are on. -/
def lines? (commands : List Command) : Option (List Nat) := commands.mapM fun c => word? c.line

/-- Numbers of lines that fit a machine word are all had. -/
theorem lines?_eq {commands : List Command} (h : ∀ c ∈ commands, c.line < UInt64.size) :
    lines? commands = some (commands.map Command.line) := by
  induction commands with
  | nil => rfl
  | cons c commands ih =>
    obtain ⟨hc, hrest⟩ := List.forall_mem_cons.1 h
    have htail := ih hrest
    rw [lines?] at htail ⊢
    rw [List.mapM_cons, word?_eq hc, htail]
    rfl

namespace Checked

variable {η : Type}

instance : MonadLift (Checked Machine) (Checked (World η)) := ⟨fun x => ⟨World.onMachine x.run⟩⟩

/-- What is safe on the machine is safe in the world around it. -/
theorem Safe.onMachine {α : Type} {x : Checked Machine α} {y : Act Machine α} {w : World η}
    (h : Safe x y w.machine) : Safe (liftM x : Checked (World η) α) (liftM y) w := by
  rw [Safe] at h ⊢
  change (World.onMachine x.run).run w = _
  rw [World.run_onMachine, h]
  rfl

theorem Safe.getMachine_bind {β : Type} {f : Machine → Checked (World η) β}
    {g : Machine → Act (World η) β} {w : World η} (hf : Safe (f w.machine) (g w.machine) w) :
    Safe (plain World.getMachine >>= f) (World.getMachine >>= g) w :=
  plain_bind hf

section Operations

variable (h : Host η)

/-! ## The operations -/

/-- Finds a script and puts it on top of an invocation's stack. The lines of the script are
numbered. -/
def pushFrame (t : ThreadHandle) (name : String) (args : List String) :
    Checked (World η) (Except Failure FrameHandle) := do
  match ← h.load name with
  | .error failure => return .error failure
  | .ok located =>
    match Script.read name located.dialect located.text with
    | .error failure => return .error failure
    | .ok (script, warnings) =>
      let _ ← check (lines? script.commands)
      plain (Act.reportAll warnings)
      pushScript t script args

/-- Starts a script on an entity. -/
def start (entity : EntityId) (name : String) :
    Checked (World η) (Except Failure ThreadHandle) := do
  let m ← plain World.getMachine
  let ((g, created), targets) ← check <|
    m.targets.findOrCreate? (fun target => target.entity = some entity) { entity := some entity }
  let (t, threads) ← check (m.threads.create? { target := g, script := name })
  plain (World.modifyMachine fun m => { m with targets, threads })
  match ← pushFrame h t name [] with
  | .error failure =>
    plain (Act.report (.startFailed name entity failure))
    plain (World.modifyMachine fun m =>
      { m with
        threads := m.threads.erase t
        targets := if created then m.targets.eraseIf g (·.threads.isEmpty) else m.targets })
    return .error failure
  | .ok _ =>
    let m ← plain World.getMachine
    if m.targets.contains g then
      plain (World.modifyMachine (·.modifyTarget g fun target =>
        { target with threads := target.threads ++ [t] }))
      return .ok t
    else
      plain (World.modifyMachine (·.cleanup t))
      return .error (Cause.vanishedTarget g).failure

/-- Enters the script of a `call`. -/
def enter (l : Line) (name : String) (args : List String) :
    Checked (World η) (Except Failure Signal) := do
  let index ← check (word? (l.index + 1))
  plain (World.modifyMachine (·.moveCursor l.frame index))
  match ← pushFrame h l.thread name args with
  | .ok _ => return .ok .pending
  | .error failure =>
    plain (Act.report (.callFailed l.source name failure))
    return .error ((Cause.callFailed name failure.cause).failureAt l.source)

/-- Executes a line. -/
def execute (l : Line) : Checked (World η) (Except Failure Signal) := do
  match ← plan h.toSetting l with
  | .go flow =>
    follow l flow
    return .ok .pending
  | .ask call assignTo =>
    let answer ← h.dispatch call
    return .ok (← takeAnswer l call assignTo answer)
  | .enter name args => enter h l name args

/-- Steps a frame. -/
def step (f : FrameHandle) : Checked (World η) (Except Failure Signal) := do
  match ← prepare f with
  | .error failure => return .error failure
  | .ok (.settled signal) => return .ok signal
  | .ok (.line l) => execute h l

/-- Steps an invocation. -/
def stepInvocation (t : ThreadHandle) : Checked (World η) (Except Failure Signal) := do
  match (← plain World.getMachine).threads.get? t with
  | none => return .ok .idle
  | some thread =>
    match thread.top? with
    | some f => step h f
    | none =>
      plain (Act.report (.emptyStack t))
      plain (World.modifyMachine (·.cleanup t))
      return .ok .finished

/-- **Performs an operation with every index checked.** Those that are not listed take none. -/
def perform : Operation → Checked (World η) Reply
  | .start entity name => .started <$> start h entity name
  | .step f => .stepped <$> step h f
  | .stepInvocation t => .stepped <$> stepInvocation h t
  | op => h.perform op

end Operations

end Checked

/-! ## No operation meets a fault -/

namespace Host

open Checked (Safe)

variable {η : Type} {h : Host η} {w : World η}

namespace Quiet

/-- Pushing a script takes no handle that is in use and counts nothing past its word. -/
theorem safe_pushFrame (hq : h.Quiet) (hproper : w.machine.Proper) (t : ThreadHandle)
    (name : String) (args : List String)
    (hroom : ∀ script warnings, h.script name w = .ok (script, warnings) →
      ¬ (w.machine.commands.createAll script.commands).2.Full ∧ ¬ w.machine.frames.Full) :
    Safe (Checked.pushFrame h t name args) (h.pushFrame t name args) w := by
  have hmachine := hq.load name w
  unfold Checked.pushFrame Host.pushFrame
  refine .lift_bind ?_
  cases hload : ((h.load name).run w).value with
  | error failure => exact .pure _
  | ok located =>
    dsimp only
    cases hread : Script.read name located.dialect located.text with
    | error failure => exact .pure _
    | ok result =>
      obtain ⟨script, warnings⟩ := result
      have hscript : h.script name w = .ok (script, warnings) := by rw [Host.script, hload, ← hread]
      obtain ⟨hcommands, hframes⟩ := hroom script warnings hscript
      have hlines : ∀ c ∈ script.commands, c.line < UInt64.size := fun c hc =>
        Nat.lt_of_le_of_lt (Script.line_le hread c hc) (hq.text name w located hload)
      refine .check_bind (lines?_eq hlines) (.plain_bind (.onMachine ?_))
      rw [Act.run_reportAll]
      dsimp only
      rw [hmachine]
      exact Checked.safe_pushScript hproper hcommands hframes t args

/-- **Starting a script meets no fault.** -/
theorem safe_start (hq : h.Quiet) (hm : w.machine.Bounded) (hbefore : w.machine.Roomy)
    (entity : EntityId) (name : String)
    (hroom : ((h.start entity name).run w).state.machine.Roomy) :
    Safe (Checked.start h entity name) (h.start entity name) w := by
  have hopened := hm.opened entity name
  have hpush : Safe (Checked.pushFrame h w.machine.threads.fresh name [])
      (h.pushFrame w.machine.threads.fresh name [])
      { w with machine := w.machine.opened entity name } := by
    refine hq.safe_pushFrame hopened.proper _ name [] fun script warnings hscript => ?_
    rw [hq.run_start hm.proper hbefore, hscript] at hroom
    exact ⟨hroom.commands, hbefore.frames⟩
  unfold Checked.start Host.start
  refine .getMachine_bind
    (.check_bind (Table.findOrCreate?_eq hm.proper.targets hbefore.targets _ _) ?_)
  refine .check_bind (Table.create?_eq hm.proper.threads hbefore.threads _) (.plain_bind ?_)
  refine hpush.bind ?_
  cases ((h.pushFrame w.machine.threads.fresh name []).run
      { w with machine := w.machine.opened entity name }).value with
  | error failure => exact .plain_bind (.plain_bind (.pure _))
  | ok f =>
    refine .getMachine_bind (.ite ?_ ?_)
    · exact .plain_bind (.pure _)
    · exact .plain_bind (.pure _)

/-- So does entering one, whose line goes on behind itself first. -/
theorem safe_enter (hq : h.Quiet) {l : Line} (hm : w.machine.Bounded) (hl : l.In w.machine)
    (hlive : w.machine.threads.contains l.thread = true) (name : String) (args : List String)
    (hroom : ((h.enter l name args).run w).state.machine.Roomy) :
    Safe (Checked.enter h l name args) (h.enter l name args) w := by
  have hmoved := hm.moveCursor l.frame (l.index + 1)
  unfold Checked.enter Host.enter
  refine .check_bind (word?_eq (hm.index_lt hl)) (.plain_bind ?_)
  refine .bind (hq.safe_pushFrame hmoved.proper _ name args ?_) ?_
  · intro script warnings hscript
    change h.script name
      { w with machine := w.machine.moveCursor l.frame (l.index + 1) } = _ at hscript
    rw [hq.run_enter name args hlive, hscript] at hroom
    exact ⟨hroom.commands, fun hfull => hroom.frames (hfull.create _)⟩
  · rcases ((h.pushFrame l.thread name args).run ((World.modifyMachine
      (·.moveCursor l.frame (l.index + 1))).run w).state).value with failure | f
    · exact .plain_bind (.pure _)
    · exact .pure _

/-- **Executing a line meets no fault.** -/
theorem safe_execute (hq : h.Quiet) {l : Line} (hm : w.machine.Bounded) (hl : l.In w.machine)
    (hlive : w.machine.threads.contains l.thread = true)
    (hroom : ((h.execute l).run w).state.machine.Roomy) :
    Safe (Checked.execute h l) (h.execute l) w := by
  have hedits := ((Machine.Runs.plan h.toSetting).changes w.machine hl).edits
  unfold Checked.execute
  unfold Host.execute at hroom ⊢
  refine .bind (.onMachine (Checked.safe_plan hm hl)) ?_
  rw [Act.run_bind] at hroom
  rw [World.run_liftM] at hroom ⊢
  cases hvalue : ((Machine.plan h.toSetting l).run w.machine).value with
  | go flow => exact .bind (.onMachine (Checked.safe_follow (hm.index_lt hl) flow)) (.pure _)
  | ask call assignTo =>
    exact .lift_bind
      (.bind (.onMachine (Checked.safe_takeAnswer (hm.index_lt hl) call assignTo _)) (.pure _))
  | enter name args =>
    rw [hvalue] at hroom
    exact hq.safe_enter (hm.edits hedits) (hedits.line hl)
      ((hedits.contains_thread l.thread).trans hlive) name args hroom

/-- **Stepping a frame meets no fault.** -/
theorem safe_step (hq : h.Quiet) (hm : w.machine.Bounded) (f : FrameHandle)
    (hroom : ((h.step f).run w).state.machine.Roomy) : Safe (Checked.step h f) (h.step f) w := by
  obtain ⟨hready, hline⟩ := hm.prepare f
  unfold Checked.step
  unfold Host.step at hroom ⊢
  refine .bind (.onMachine (Checked.safe_prepare hm f)) ?_
  rw [Act.run_bind] at hroom
  rw [World.run_liftM] at hroom ⊢
  rcases hvalue : ((Machine.prepare f).run w.machine).value with failure | signal | l
  · exact .pure _
  · exact .pure _
  · rw [hvalue] at hroom
    obtain ⟨hin, -, hlive⟩ := hline l hvalue
    exact hq.safe_execute hready hin hlive hroom

/-- **A step of an invocation is safe**, on any machine within bounds, sound or not. -/
theorem safe_stepInvocation (hq : h.Quiet) (hm : w.machine.Bounded) (t : ThreadHandle)
    (hroom : ((h.stepInvocation t).run w).state.machine.Roomy) :
    Safe (Checked.stepInvocation h t) (h.stepInvocation t) w := by
  unfold Checked.stepInvocation
  unfold Host.stepInvocation at hroom ⊢
  rw [World.run_getMachine_bind] at hroom
  refine .getMachine_bind ?_
  cases ht : w.machine.threads.get? t with
  | none => exact .pure _
  | some thread =>
    rw [ht] at hroom
    dsimp only at hroom ⊢
    cases htop : thread.top? with
    | none => exact .plain_bind (.plain_bind (.pure _))
    | some f =>
      rw [htop] at hroom
      exact hq.safe_step hm f hroom

/-- **No operation meets a fault** on a machine within bounds. -/
theorem safe_perform (hq : h.Quiet) (hm : w.machine.Bounded) (hbefore : w.machine.Roomy)
    (op : Operation) (hroom : ((h.perform op).run w).state.machine.Roomy) :
    Safe (Checked.perform h op) (h.perform op) w := by
  cases op with
  | start entity name =>
    simp only [Host.perform, Act.run_map] at hroom
    exact (hq.safe_start hm hbefore entity name hroom).map _
  | step f =>
    simp only [Host.perform, Act.run_map] at hroom
    exact (hq.safe_step hm f hroom).map _
  | stepInvocation t =>
    simp only [Host.perform, Act.run_map] at hroom
    exact (hq.safe_stepInvocation hm t hroom).map _
  | _ => exact .lift _

end Quiet

end Host

/-! ## Every operation stays within bounds -/

namespace Machine

/-- A cursor that was moved is among the commands, or just past them. -/
theorem cursor_moveCursor {m : Machine} {f : FrameHandle} {index : Nat} {frame : Frame}
    (hf : (m.moveCursor f index).frames.get? f = some frame) :
    frame.cursor ≤ frame.commands.length := by
  rw [moveCursor, frames_modifyFrame, Table.get?_modify, if_pos rfl] at hf
  obtain ⟨old, -, rfl⟩ := Option.map_eq_some_iff.1 hf
  exact Nat.min_le_right _ _

/-- So is one that waits past its line. -/
theorem cursor_takeAnswer {m : Machine} {l : Line} {frame : Frame} (hl : l.In m) (call : Call)
    (assignTo : Option String) (answer : Except Failure Completion)
    (hf : ((takeAnswer l call assignTo answer).run m).state.frames.get? l.frame = some frame) :
    frame.cursor ≤ frame.commands.length := by
  rcases answer with failure | value | _
  · exact cursor_moveCursor hf
  · rw [(run_takeAnswer_ready l call assignTo value m).2] at hf
    exact cursor_moveCursor hf
  · obtain ⟨own, c, -, hown, -, hc, -⟩ := hl
    rw [run_takeAnswer_pending, parked, frames_modifyFrame, Table.get?_modify,
      if_pos rfl, hown] at hf
    cases hf
    exact (List.getElem?_eq_some_iff.1 hc).1

end Machine

namespace Host.Quiet

variable {η : Type} {h : Host η} {w : World η}

/-- Entering a script stays within bounds, and the cursor of the line that enters it does not pass
the end. -/
theorem bounded_enter (hq : h.Quiet) {l : Line} (hm : w.machine.Bounded)
    (hlive : w.machine.threads.contains l.thread = true) (name : String) (args : List String)
    (hroom : ((h.enter l name args).run w).state.machine.Roomy) :
    ((h.enter l name args).run w).state.machine.Bounded ∧
      ∀ frame, ((h.enter l name args).run w).state.machine.frames.get? l.frame = some frame →
        frame.cursor ≤ frame.commands.length := by
  have hmoved := hm.moveCursor l.frame (l.index + 1)
  rw [hq.run_enter name args hlive] at hroom ⊢
  cases hscript :
      h.script name { w with machine := w.machine.moveCursor l.frame (l.index + 1) } with
  | error failure =>
    dsimp only
    rw [hq.load]
    exact ⟨hmoved, fun frame hf => Machine.cursor_moveCursor hf⟩
  | ok result =>
    rw [hscript] at hroom
    refine ⟨hmoved.pushed (hq.readable hscript) hroom.commands, fun frame hf => ?_⟩
    dsimp only at hf
    rw [Machine.get?_frames_pushed] at hf
    split at hf
    · cases hf
      exact Nat.zero_le _
    · exact Machine.cursor_moveCursor hf

/-- **Executing a line** keeps the machine within bounds, and the cursor of its frame lands among
the commands or just past them. -/
theorem bounded_execute (hq : h.Quiet) {l : Line} (hm : w.machine.Bounded) (hl : l.In w.machine)
    (hlive : w.machine.threads.contains l.thread = true)
    (hroom : ((h.execute l).run w).state.machine.Roomy) :
    ((h.execute l).run w).state.machine.Bounded ∧
      ∀ frame, ((h.execute l).run w).state.machine.frames.get? l.frame = some frame →
        frame.cursor ≤ frame.commands.length := by
  have hedits := ((Machine.Runs.plan h.toSetting).changes w.machine hl).edits
  have hplan := hm.edits hedits
  unfold Host.execute at hroom ⊢
  rw [Act.run_bind] at hroom ⊢
  rw [World.run_liftM] at hroom ⊢
  cases hvalue : ((Machine.plan h.toSetting l).run w.machine).value with
  | go flow =>
    exact ⟨hplan.edits (Machine.edits_follow l flow _),
      fun frame hf => Machine.cursor_moveCursor hf⟩
  | ask call assignTo =>
    have hin := hedits.line hl
    simp only [Act.run_bind, World.run_liftM, Act.run_pure, hq.dispatch]
    exact ⟨hplan.edits (Machine.edits_takeAnswer (fun _ => hin) call assignTo _),
      fun frame hf => Machine.cursor_takeAnswer hin call assignTo _ hf⟩
  | enter name args =>
    rw [hvalue] at hroom
    exact hq.bounded_enter hplan ((hedits.contains_thread l.thread).trans hlive) name args hroom

/-- **A step stays within bounds**, and a frame that executed a line has its cursor among its
commands or right behind them. -/
theorem bounded_step (hq : h.Quiet) (hm : w.machine.Bounded) (f : FrameHandle)
    (hroom : ((h.step f).run w).state.machine.Roomy) :
    ((h.step f).run w).state.machine.Bounded ∧
      ∀ l frame, ((Machine.prepare f).run w.machine).value = .ok (.line l) →
        ((h.step f).run w).state.machine.frames.get? f = some frame →
          frame.cursor ≤ frame.commands.length := by
  obtain ⟨hready, hline⟩ := hm.prepare f
  unfold Host.step at hroom ⊢
  rw [Act.run_bind] at hroom ⊢
  rw [World.run_liftM] at hroom ⊢
  rcases hvalue : ((Machine.prepare f).run w.machine).value with failure | signal | l
  · exact ⟨hready, by rintro l frame ⟨⟩⟩
  · exact ⟨hready, by rintro l frame ⟨⟩⟩
  · rw [hvalue] at hroom
    obtain ⟨hin, hframe, hlive⟩ := hline l hvalue
    obtain ⟨hbounded, hcursor⟩ := hq.bounded_execute hready hin hlive hroom
    rw [hframe] at hcursor
    exact ⟨hbounded, fun _ frame _ => hcursor frame⟩

end Host.Quiet

/-- The frame that an operation steps. -/
def Operation.stepped? (m : Machine) : Operation → Option FrameHandle
  | .step f => some f
  | .stepInvocation t => m.frameOf t
  | _ => none

namespace Host.Quiet

variable {η : Type} {h : Host η} {w : World η}

/-- Starting a script stays within bounds. -/
theorem bounded_start (hq : h.Quiet) (hm : w.machine.Bounded) (hbefore : w.machine.Roomy)
    (entity : EntityId) (name : String)
    (hroom : ((h.start entity name).run w).state.machine.Roomy) :
    ((h.start entity name).run w).state.machine.Bounded := by
  rw [hq.run_start hm.proper hbefore] at hroom ⊢
  cases hscript : h.script name { w with machine := w.machine.opened entity name } with
  | error failure => exact hm.withdrawn entity
  | ok result =>
    rw [hscript] at hroom
    exact hm.started (hq.readable hscript) hroom.commands entity name

/-- Stepping an invocation that has no frame cleans it up, if it is there. -/
theorem bounded_stepInvocation (hm : w.machine.Bounded) {t : ThreadHandle}
    (hnone : w.machine.frameOf t = none) :
    ((h.stepInvocation t).run w).state.machine.Bounded := by
  rw [machine_stepInvocation_of_bare hnone]
  exact hm.cleanup t

/-- **Every operation keeps the machine within bounds**, and if it ran a line of a frame that is
still live, the frame's cursor is among its commands or just past them. -/
theorem bounded_perform (hq : h.Quiet) (hm : w.machine.Bounded) (hbefore : w.machine.Roomy)
    (op : Operation) (hroom : ((h.perform op).run w).state.machine.Roomy) :
    ((h.perform op).run w).state.machine.Bounded ∧
      ∀ f l frame, op.stepped? w.machine = some f →
        ((Machine.prepare f).run w.machine).value = .ok (.line l) →
        ((h.perform op).run w).state.machine.frames.get? f = some frame →
          frame.cursor ≤ frame.commands.length := by
  cases op with
  | start entity name =>
    simp only [Host.perform, Act.run_map] at hroom ⊢
    exact ⟨hq.bounded_start hm hbefore entity name hroom, by rintro f l frame ⟨⟩⟩
  | step f =>
    simp only [Host.perform, Act.run_map] at hroom ⊢
    obtain ⟨hbounded, hcursor⟩ := hq.bounded_step hm f hroom
    refine ⟨hbounded, fun k l frame hk => ?_⟩
    cases hk
    exact hcursor l frame
  | stepInvocation t =>
    simp only [Host.perform, Act.run_map, Operation.stepped?] at hroom ⊢
    cases htop : w.machine.frameOf t with
    | none => exact ⟨bounded_stepInvocation hm htop, by rintro f l frame ⟨⟩⟩
    | some f =>
      -- the invocation's frame is what is stepped
      obtain ⟨below, hstack⟩ := Machine.stackAt_of_frameOf htop
      rw [run_stepInvocation hstack] at hroom ⊢
      obtain ⟨hbounded, hcursor⟩ := hq.bounded_step hm f hroom
      refine ⟨hbounded, fun k l frame hk => ?_⟩
      cases hk
      exact hcursor l frame
  | complete f result =>
    exact ⟨hm.edits (Machine.edits_completeCall f result w.machine), by rintro f l frame ⟨⟩⟩
  | setVariable t token value =>
    exact ⟨hm.edits (Machine.edits_setVariable t token value w.machine), by rintro f l frame ⟨⟩⟩
  | setGlobal name value => exact ⟨hm.edits (.single (.globalVariable _ _)), by rintro f l frame ⟨⟩⟩
  | claim =>
    refine ⟨?_, by rintro f l frame ⟨⟩⟩
    simp only [Host.perform, World.run_getMachine_bind]
    unfold Machine.claimNext
    split
    · exact hm
    · exact hm.of_shrinks { Machine.Shrinks.refl _ with threads := .modify _ _ _ } fun _ _ => id
  | cleanup t => exact ⟨hm.cleanup t, by rintro f l frame ⟨⟩⟩
  | reset => exact ⟨⟨Machine.Sound.empty.proper, by rintro f frame ⟨⟩⟩, by rintro f l frame ⟨⟩⟩

end Host.Quiet

/-! ## Runs -/

namespace Machine

variable {m m₀ : Machine}

/-- **The machines of a run**: from the first on by operations of quiet hosts, as long as no table
is full. -/
inductive Resumed (m₀ : Machine) : Machine → Prop
  | start (hroom : m₀.Roomy) : Resumed m₀ m₀
  | perform {η : Type} {h : Host η} {w : World η} {op : Operation} (hquiet : h.Quiet)
      (hbefore : Resumed m₀ w.machine) (hroom : ((h.perform op).run w).state.machine.Roomy) :
      Resumed m₀ ((h.perform op).run w).state.machine

/-- No table is full in the machines of a run. -/
theorem Resumed.roomy (h : Resumed m₀ m) : m.Roomy := by
  cases h with
  | start hroom => exact hroom
  | perform _ _ hroom => exact hroom

/-- A run stays within bounds. -/
theorem Resumed.bounded (h : Resumed m₀ m) (hm : m₀.Bounded) : m.Bounded := by
  induction h with
  | start => exact hm
  | perform hquiet hbefore hroom ih => exact (hquiet.bounded_perform ih hbefore.roomy _ hroom).1

/-- **Running a save that nobody vouches for stays in bounds and ends.** If the return addresses and
the subroutines that were saved can be counted up, the load succeeds, and after every run from it no
operation of a quiet host meets a fault: the operation with every index checked does what the
operation does. If a line of a frame was run and the frame is still live, its cursor is among its
commands or just past them. -/
theorem Countable.runs_in_bounds {saved : Machine} {bs : Bytes} (hcount : saved.Countable)
    (hread : read bs = .ok saved) (s : Setting) (m₀ : Machine) :
    ((load s bs).run m₀).value = .ok () ∧
      ∀ {η : Type} (h : Host η) (w : World η) (op : Operation), h.Quiet →
        Resumed ((load s bs).run m₀).state w.machine → ((h.perform op).run w).state.machine.Roomy →
          Checked.Safe (Checked.perform h op) (h.perform op) w ∧
            ∀ f l frame, op.stepped? w.machine = some f →
              ((prepare f).run w.machine).value = .ok (.line l) →
              ((h.perform op).run w).state.machine.frames.get? f = some frame →
                frame.cursor ≤ frame.commands.length := by
  refine ⟨by rw [run_load_ok hread], fun h w op hquiet hrun hroom => ?_⟩
  have hbounded := hrun.bounded (hcount.bounded_of_load hread)
  exact ⟨hquiet.safe_perform hbounded hrun.roomy op hroom,
    (hquiet.bounded_perform hbounded hrun.roomy op hroom).2⟩

/-- A machine that no host made: the first frame is on its stack twice, has a command that is gone
and one that the second frame has too, and its labels and its return address are the last numbers
there are; the cursor of the second frame is far past its commands. -/
def unruly : Machine where
  targets := Table.ofObjects ((∅ : Assoc _ _ _).insert ⟨1⟩ { entity := some ⟨7⟩, threads := [⟨1⟩] })
  threads := Table.ofObjects ((∅ : Assoc _ _ _).insert ⟨1⟩
    { target := ⟨1⟩, script := "main", stack := [⟨1⟩, ⟨1⟩, ⟨2⟩] })
  frames := Table.ofObjects (((∅ : Assoc _ _ _).insert ⟨1⟩
    { thread := ⟨1⟩, script := "main", dialect := .line, commands := [⟨9⟩, ⟨1⟩, ⟨9⟩],
      gotos := (∅ : LabelMap).insert "far" 18446744073709551615,
      gosubs := (∅ : LabelMap).insert "far" 18446744073709551614, returns :=
      [18446744073709551614] }).insert ⟨2⟩
    { thread := ⟨1⟩, script := "main", dialect := .line, commands := [⟨1⟩],
      cursor := 18446744073709551615, gotos := ∅, gosubs := ∅ })
  commands := Table.ofObjects ((∅ : Assoc _ _ _).insert ⟨1⟩ ⟨1, ["endsub"]⟩)

/-- The machine as it is saved. -/
def unrulySave : Bytes := unruly.save.toOption.getD []

/-- The save was loaded by a host that promises every answer. -/
def unleashed : World (List Call) := ⟨((load {} unrulySave).run ∅).state, []⟩

/-- The first frame went where its return address sends it. -/
def returned : World (List Call) :=
  (((asking {}).perform (.stepInvocation ⟨1⟩)).run unleashed).state

/-- The save of the unruly machine can be read, and what was saved to go on after can be counted
up. -/
theorem read_unrulySave : ∃ saved, read unrulySave = .ok saved ∧ saved.Countable := by
  have hall : (read unrulySave).toOption.any (fun m => decide m.Countable) = true := by
    decide +kernel
  cases hread : read unrulySave with
  | error refusal =>
    rw [hread] at hall
    cases hall
  | ok saved =>
    rw [hread] at hall
    exact ⟨saved, rfl, of_decide_eq_true hall⟩

/-- On the unruly machine an `endsub` finds a return address that leads past all commands. The
cursor stops right behind them, and nothing goes out of bounds. -/
theorem unruly_in_bounds :
    ∃ saved l frame, unruly.save = .ok unrulySave ∧ read unrulySave = .ok saved ∧ saved.Countable ∧
      Resumed unleashed.machine returned.machine ∧
      ((prepare ⟨1⟩).run unleashed.machine).value = .ok (.line l) ∧ l.tokens = ["endsub"] ∧
      returned.machine.frames.get? ⟨1⟩ = some frame ∧ frame.cursor ≤ frame.commands.length ∧
      (((asking {}).perform (.stepInvocation ⟨1⟩)).run returned).value = .stepped (.ok .finished) ∧
      Checked.Safe (Checked.perform (asking {}) (.stepInvocation ⟨1⟩))
        ((asking {}).perform (.stepInvocation ⟨1⟩)) returned := by
  obtain ⟨saved, hread, hcount⟩ := read_unrulySave
  have hsave : unruly.save = .ok unrulySave := by decide +kernel
  obtain ⟨l, hline, htokens⟩ : ∃ l, ((prepare ⟨1⟩).run unleashed.machine).value = .ok (.line l) ∧
      l.tokens = ["endsub"] := ⟨⟨⟨1⟩, ⟨1⟩, 1, 3, ⟨"main", 1⟩, ["endsub"]⟩, by decide +kernel, rfl⟩
  have htop : unleashed.machine.frameOf ⟨1⟩ = some ⟨1⟩ := by decide +kernel
  have hlive : (returned.machine.frames.get? ⟨1⟩).isSome = true := by decide +kernel
  have hend : (((asking {}).perform (.stepInvocation ⟨1⟩)).run returned).value =
      .stepped (.ok .finished) := by
    decide +kernel
  have hroom₀ : unleashed.machine.Roomy := roomy_of_free 8 (by decide) (by decide +kernel)
  have hroom₁ : returned.machine.Roomy := roomy_of_free 8 (by decide) (by decide +kernel)
  have hroom₂ : (((asking {}).perform (.stepInvocation ⟨1⟩)).run returned).state.machine.Roomy :=
    roomy_of_free 8 (by decide) (by decide +kernel)
  have hstart : Resumed unleashed.machine unleashed.machine := .start hroom₀
  have hreturned : returned =
    (((asking {}).perform (.stepInvocation ⟨1⟩)).run unleashed).state := by rw [returned]
  have hloaded : unleashed.machine = ((load {} unrulySave).run ∅).state := by rw [unleashed]
  have hnext : Resumed unleashed.machine returned.machine := by
    rw [hreturned] at hroom₁ ⊢
    exact .perform (quiet_asking {}) hstart hroom₁
  obtain ⟨-, hruns⟩ := hcount.runs_in_bounds hread {} ∅
  rw [← hloaded] at hruns
  have hfirst := hruns (asking {}) unleashed (.stepInvocation ⟨1⟩) (quiet_asking {}) hstart
  rw [← hreturned] at hfirst
  have hsecond := hruns (asking {}) returned (.stepInvocation ⟨1⟩) (quiet_asking {}) hnext hroom₂
  obtain ⟨frame, hframe⟩ := Option.isSome_iff_exists.1 hlive
  exact ⟨saved, l, frame, hsave, hread, hcount, hnext, hline, htokens, hframe,
    (hfirst hroom₁).2 ⟨1⟩ l frame htop hline hframe, hend, hsecond.1⟩

end Machine

end StepScript
