import StepScript.Proofs.Machine.Moves

/-!
# Proofs/Machine/Alike — what an invocation can see

An invocation sees itself, its target, its frames and their commands, and the global variables. Two
machines are *alike* for it if they agree on all of this but the last. A computation of the
invocation that names no global variable cannot tell such machines apart: it gives the same value,
leaves them alike and keeps the global variables (`Machine.Concurs`).

* `Line.Program.concurs` — every line without global variables is such a computation.
* `Machine.Alike.takeAnswer` — so is taking the host's answer.
* `Machine.Alike.prepare` — so is readying the innermost frame, also where frames leave the stack.
-/

namespace StepScript

/-- Whether a token refers to a global variable. -/
def TokenRef.isGlobal : TokenRef → Bool
  | .var .global _ => true
  | _ => false

/-- **No token of the line names a global variable.** -/
def Line.IsLocal (l : Line) : Prop := ∀ token ∈ l.tokens, (TokenRef.of token).isGlobal = false

namespace Machine

variable {m n : Machine} {t : ThreadHandle} {g : TargetHandle} {f : FrameHandle} {frame : Frame}

/-- **The machines are alike** for an invocation `t` on a target `g`: they agree on both, and on the
frames of the invocation and their commands. -/
structure Alike (t : ThreadHandle) (g : TargetHandle) (m n : Machine) : Prop where
  thread : n.threads.get? t = m.threads.get? t
  target : n.targets.get? g = m.targets.get? g
  frame : ∀ f frame, frame.thread = t →
    (n.frames.get? f = some frame ↔ m.frames.get? f = some frame)
  command : ∀ f frame, m.frames.get? f = some frame → frame.thread = t →
    ∀ c ∈ frame.commands, n.commands.get? c = m.commands.get? c

namespace Alike

/-- The target of the invocation is the same. -/
theorem value_targetOf (h : Alike t g m n) (hg : m.targetAt t = some g) :
    ((targetOf t).run n).value = ((targetOf t).run m).value := by
  obtain ⟨thread, hthread, rfl⟩ := Option.map_eq_some_iff.1 hg
  have hlive : n.targets.contains thread.target = m.targets.contains thread.target := by
    rw [Table.contains_eq, Table.contains_eq, h.target]
  rw [Machine.value_targetOf, Machine.value_targetOf, h.thread, hthread, Option.bind_some, hlive]
  rfl

/-! ## Changes -/

/-- Changing a frame of the invocation, which stays one. -/
theorem modifyFrame {u v : Frame → Frame} (h : Alike t g m n) (hf : m.frames.get? f = some frame)
    (ht : frame.thread = t) (hsame : v frame = u frame)
    (hkeep : (u frame).thread = frame.thread ∧ (u frame).commands = frame.commands) :
    Alike t g (m.modifyFrame f u) (n.modifyFrame f v) := by
  have hmod : (m.modifyFrame f u).frames.get? f = some (u frame) := by
    rw [frames_modifyFrame, Table.get?_modify, if_pos rfl, hf, Option.map_some]
  have hmod' : (n.modifyFrame f v).frames.get? f = some (u frame) := by
    rw [frames_modifyFrame, Table.get?_modify, if_pos rfl, (h.frame f frame ht).2 hf,
      Option.map_some, hsame]
  refine ⟨h.thread, h.target, fun k e he => ?_, fun k e hk he c hc => ?_⟩
  · by_cases hkf : k = f
    · rw [hkf, hmod, hmod']
    · rw [frames_modifyFrame, frames_modifyFrame, Table.get?_modify, Table.get?_modify,
        if_neg hkf, if_neg hkf]
      exact h.frame k e he
  · by_cases hkf : k = f
    · rw [hkf, hmod] at hk
      cases hk
      exact h.command f frame hf ht c (hkeep.2 ▸ hc)
    · rw [frames_modifyFrame, Table.get?_modify, if_neg hkf] at hk
      exact h.command k e hk he c hc

theorem modifyThread (h : Alike t g m n) (u : Thread → Thread) :
    Alike t g (m.modifyThread t u) (n.modifyThread t u) := by
  refine ⟨?_, h.target, h.frame, h.command⟩
  rw [threads_modifyThread, threads_modifyThread, Table.get?_modify, Table.get?_modify, h.thread]

theorem modifyTarget (h : Alike t g m n) (u : Target → Target) :
    Alike t g (m.modifyTarget g u) (n.modifyTarget g u) := by
  refine ⟨h.thread, ?_, h.frame, h.command⟩
  rw [targets_modifyTarget, targets_modifyTarget, Table.get?_modify, Table.get?_modify, h.target]

/-- Taking a frame of the invocation away. -/
theorem leave (h : Alike t g m n) (hf : m.frames.get? f = some frame) (ht : frame.thread = t) :
    Alike t g ((m.unstack t f).removeFrame f) ((n.unstack t f).removeFrame f) := by
  have hf' : n.frames.get? f = some frame := (h.frame f frame ht).2 hf
  refine ⟨?_, ?_, fun k e he => ?_, fun k e hk he c hc => ?_⟩
  · rw [threads_removeFrame, threads_removeFrame]
    exact (h.modifyThread _).thread
  · rw [targets_removeFrame, targets_removeFrame]
    exact h.target
  · rw [get?_frames_removeFrame, get?_frames_removeFrame]
    exact and_congr_left' (h.frame k e he)
  · obtain ⟨hk, -⟩ := get?_frames_removeFrame.1 hk
    have hsame := h.command k e hk he c hc
    simp only [removeFrame, frames_unstack, commands_unstack, hf, hf', Table.get?_eraseAll, hsame]

/-- Taking the invocation away. Its frames go with it. -/
theorem cleanup (h : Alike t g m n) (hm : m.Sound) (hn : n.Sound) :
    Alike t g (m.cleanup t) (n.cleanup t) := by
  have hgone : ∀ m : Machine, m.Sound → ∀ k e, e.thread = t →
      (m.cleanup t).frames.get? k ≠ some e := by
    intro m hm k e he hk
    obtain ⟨hk, hstacks⟩ := get?_frames_cleanup.1 hk
    rw [hm.owned.stacks_iff, threadAt, hk, Option.map_some, he] at hstacks
    exact hstacks rfl
  refine ⟨?_, ?_, fun k e he => iff_of_false (hgone n hn k e he) (hgone m hm k e he),
    fun k e hk he => absurd hk (hgone m hm k e he)⟩
  · rw [threads_cleanup, threads_cleanup, Table.get?_erase, Table.get?_erase,
      if_pos rfl, if_pos rfl]
  · have hruns : ∀ k, (decide (k = t) && n.runsOn k g) = (decide (k = t) && m.runsOn k g) := by
      intro k
      by_cases hk : k = t
      · rw [hk, runsOn, runsOn, h.thread]
      · simp [hk]
    rw [get?_targets_cleanup, get?_targets_cleanup, h.target]
    simp only [hruns]

end Alike

/-! ## Computations -/

/-- **The computation concurs on two machines**: it gives the same value, and leaves them alike. The
global variables are as they were. -/
structure Concurs (t : ThreadHandle) (g : TargetHandle) {α : Type} (x : Act Machine α)
    (m n : Machine) :
    Prop where
  value : (x.run n).value = (x.run m).value
  alike : Alike t g (x.run m).state (x.run n).state
  globals : (x.run m).state.globals = m.globals ∧ (x.run n).state.globals = n.globals

namespace Concurs

variable {α β : Type} {x : Act Machine α} {y : α → Act Machine β}

/-- Two computations concur if the first do, and the second do on what the first leave. -/
theorem bind (hx : Concurs t g x m n)
    (hy : Concurs t g (y (x.run m).value) (x.run m).state (x.run n).state) :
    Concurs t g (x >>= y) m n := by
  have hrun : (x >>= y).run n = ⟨((y (x.run m).value).run (x.run n).state).value,
      ((y (x.run m).value).run (x.run n).state).state,
      (x.run n).log ++ ((y (x.run m).value).run (x.run n).state).log⟩ := by
    rw [Act.run_bind, hx.value]
  refine ⟨?_, ?_, hy.globals.1.trans hx.globals.1, ?_⟩
  · rw [hrun]
    exact hy.value
  · rw [hrun]
    exact hy.alike
  · rw [hrun]
    exact hy.globals.2.trans hx.globals.2

/-- Doing nothing concurs. -/
theorem pure (h : Alike t g m n) (a : α) : Concurs t g (Pure.pure a) m n := ⟨rfl, h, rfl, rfl⟩

/-- A computation that only reads. -/
theorem of_state (h : Alike t g m n) (hstate : ∀ m, (x.run m).state = m)
    (hvalue : (x.run n).value = (x.run m).value) : Concurs t g x m n := by
  refine ⟨hvalue, ?_, congrArg Machine.globals (hstate m), congrArg Machine.globals (hstate n)⟩
  rw [hstate, hstate]
  exact h

/-- A computation that goes on as another one does on other machines. -/
theorem of_run {m' n' : Machine} {z : Act Machine α} (hz : Concurs t g z m' n')
    (hm : x.run m = z.run m') (hn : x.run n = z.run n')
    (hglobals : m'.globals = m.globals ∧ n'.globals = n.globals) :
    Concurs t g x m n := by
  refine ⟨?_, ?_, ?_, ?_⟩
  · rw [hm, hn, hz.value]
  · rw [hm, hn]
    exact hz.alike
  · rw [hm, hz.globals.1, hglobals.1]
  · rw [hn, hz.globals.2, hglobals.2]

end Concurs

/-! ## Variables -/

section

variable {l : Line} (h : Alike l.thread g m n) (hl : l.In m) (hg : m.targetAt l.thread = some g)

include h hl

/-- The frame of the line is the same. -/
theorem Alike.sameFrame : l.SameFrame m n := by
  obtain ⟨frame, -, -, hf, hthread, -⟩ := hl
  have hf' := (h.frame l.frame frame hthread.symm).2 hf
  refine ⟨hf'.trans hf.symm, fun e he c hc => h.command l.frame e he ?_ c hc⟩
  rw [hf] at he
  cases he
  exact hthread.symm

/-- The line stands in both. -/
theorem Alike.line : l.In n := by
  obtain ⟨frame, c, command, hf, hthread, hc, hcommand, hrest⟩ := hl
  have hsame := h.command l.frame frame hf hthread.symm c (List.mem_of_getElem? hc)
  exact ⟨frame, c, command, (h.frame l.frame frame hthread.symm).2 hf, hthread, hc,
    hsame.trans hcommand, hrest⟩

/-- Changing the frame of the line. -/
theorem Alike.modifyOwn {u : Frame → Frame}
    (hu : ∀ frame, (u frame).thread = frame.thread ∧ (u frame).commands = frame.commands) :
    Alike l.thread g (m.modifyFrame l.frame u) (n.modifyFrame l.frame u) := by
  obtain ⟨frame, -, -, hf, hthread, -⟩ := hl
  exact h.modifyFrame hf hthread.symm rfl (hu frame)

include hg

/-- A line finds the same cells in both machines. -/
theorem Alike.cellOf (scope : Scope) : n.cellOf l.vantage scope = m.cellOf l.vantage scope := by
  cases scope with
  | frame =>
    have hlive : n.frames.contains l.frame = m.frames.contains l.frame := by
      rw [Table.contains_eq, Table.contains_eq, (h.sameFrame hl).frame]
    simp only [Machine.cellOf, Line.vantage, Option.filter_some, hlive]
  | thread =>
    have hlive : n.threads.contains l.thread = m.threads.contains l.thread := by
      rw [Table.contains_eq, Table.contains_eq, h.thread]
    exact congrArg (fun live : Bool => if live then some (Cell.thread l.thread) else none) hlive
  | target => exact congrArg (Option.map Cell.target) (h.value_targetOf hg)
  | global => rfl

/-- The variables within reach are the same, but for the global ones. -/
theorem Alike.varsAt {cell : Cell} (hcell : l.vantage.Reaches m cell) (hne : cell ≠ .global) :
    n.varsAt cell = m.varsAt cell := by
  cases cell with
  | frame f =>
    cases hcell
    exact congrArg (Option.map Frame.vars) (h.sameFrame hl).frame
  | thread t =>
    cases hcell
    exact congrArg (Option.map Thread.vars) h.thread
  | target g' =>
    cases hg.symm.trans hcell
    exact congrArg (Option.map Target.vars) h.target
  | global => exact absurd rfl hne

/-- Assigning to a cell within reach keeps machines alike, unless the cell is global. -/
theorem Alike.assign {cell : Cell} (hcell : l.vantage.Reaches m cell) (hne : cell ≠ .global)
    (name value : String) :
    Alike l.thread g (m.assign cell name value) (n.assign cell name value) := by
  cases cell with
  | frame f =>
    cases hcell
    exact h.modifyOwn hl fun _ => ⟨rfl, rfl⟩
  | thread t =>
    cases hcell
    exact h.modifyThread _
  | target g' =>
    cases hg.symm.trans hcell
    exact h.modifyTarget _
  | global => exact absurd rfl hne

end

/-- Both machines have the same entity for the invocation. -/
theorem Alike.entityOf (h : Alike t g m n) (hg : m.targetAt t = some g) :
    Concurs t g (entityOf t) m n := by
  refine .of_state h (state_entityOf t) ?_
  rw [value_entityOf, value_entityOf, h.value_targetOf hg, Machine.value_targetOf]
  obtain ⟨thread, hthread, rfl⟩ := Option.map_eq_some_iff.1 hg
  rw [hthread, Option.bind_some]
  split
  · rw [Option.bind_some, Option.bind_some, h.target]
  · rfl

/-- Only the global scope names a global variable. -/
theorem cellOf_ne_global {v : Vantage} {scope : Scope} {cell : Cell}
    (h : m.cellOf v scope = some cell) (hscope : scope ≠ .global) : cell ≠ .global := by
  rintro rfl
  cases scope with
  | frame =>
    obtain ⟨f, -, heq⟩ := Option.map_eq_some_iff.1 h
    cases heq
  | thread =>
    rw [cellOf] at h
    split at h <;> cases h
  | target =>
    obtain ⟨g, -, heq⟩ := Option.map_eq_some_iff.1 h
    cases heq
  | global => exact hscope rfl

/-- Global variables change by global assignments only. -/
theorem globals_assign {cell : Cell} (hne : cell ≠ .global) (name value : String) :
    (m.assign cell name value).globals = m.globals := by
  cases cell with
  | global => exact absurd rfl hne
  | _ => rfl

end Machine

/-! ## Lines -/

section

open Machine

variable {m n : Machine} {g : TargetHandle} {l : Line} (h : Alike l.thread g m n) (hl : l.In m)
  (hg : m.targetAt l.thread = some g)

include h hl hg

theorem Machine.Alike.getVar {scope : Scope} (hscope : scope ≠ .global) (name : String) :
    Concurs l.thread g (getVar l.vantage scope name) m n := by
  refine .of_state h (state_getVar _ _ _) ?_
  rw [value_getVar, value_getVar, h.cellOf hl hg]
  cases hcell : m.cellOf l.vantage scope with
  | none => rfl
  | some cell =>
    have hvars := h.varsAt hl hg (reaches_of_cellOf hcell) (cellOf_ne_global hcell hscope)
    simp only [Option.bind_some, valueAt, hvars]

theorem Machine.Alike.setVar {scope : Scope} (hscope : scope ≠ .global) (name value : String) :
    Concurs l.thread g (setVar l.vantage scope name value) m n := by
  obtain ⟨hvalue, hstate⟩ := run_setVar l.vantage scope name value m
  obtain ⟨hvalue', hstate'⟩ := run_setVar l.vantage scope name value n
  rw [h.cellOf hl hg] at hvalue' hstate'
  cases hcell : m.cellOf l.vantage scope with
  | none =>
    rw [hcell] at hstate hstate'
    refine ⟨hvalue'.trans hvalue.symm, ?_, congrArg Machine.globals hstate,
      congrArg Machine.globals hstate'⟩
    rw [hstate, hstate']
    exact h
  | some cell =>
    have hne := cellOf_ne_global hcell hscope
    rw [hcell] at hstate hstate'
    refine ⟨hvalue'.trans hvalue.symm, ?_,
      (congrArg Machine.globals hstate).trans (globals_assign hne _ _),
      (congrArg Machine.globals hstate').trans (globals_assign hne _ _)⟩
    rw [hstate, hstate']
    exact h.assign hl hg (reaches_of_cellOf hcell) hne name value

/-- Reading a token concurs unless it names a global variable. -/
theorem Machine.Alike.readToken {token : String} (htoken : (TokenRef.of token).isGlobal = false)
    (s : Setting) : Concurs l.thread g (readToken s l.vantage token) m n := by
  unfold Machine.readToken
  cases hof : TokenRef.of token with
  | literal text => exact .pure h _
  | var scope name =>
    have hscope : scope ≠ .global := by
      rintro rfl
      rw [hof] at htoken
      cases htoken
    have hget := h.getVar hl hg hscope name
    exact hget.bind (.pure hget.alike _)
  | result =>
    refine .of_state h (fun _ => rfl) ?_
    simp only [Act.run_get_bind, Act.run_pure, resultAt, Line.vantage, Option.bind_some,
      (h.sameFrame hl).frame]
  | unknownScope text => exact ⟨rfl, h, rfl, rfl⟩

/-- So does assigning to one. -/
theorem Machine.Alike.assignToken {token : String} (htoken : (TokenRef.of token).isGlobal = false)
    (value : String) : Concurs l.thread g (assignToken l.vantage token value) m n := by
  unfold Machine.assignToken
  cases hof : TokenRef.of token with
  | var scope name =>
    have hscope : scope ≠ .global := by
      rintro rfl
      rw [hof] at htoken
      cases htoken
    exact h.setVar hl hg hscope name value
  | literal text => exact ⟨rfl, h, rfl, rfl⟩
  | result => exact ⟨rfl, h, rfl, rfl⟩
  | unknownScope text => exact ⟨rfl, h, rfl, rfl⟩

end

/-- **A line that names no global variable** concurs: whatever it does, it sees and changes only
what the machines agree on. -/
theorem Line.Program.concurs {s : Setting} {l : Line} {α : Type} {x : Act Machine α}
    (hx : l.Program s x) {m n : Machine} {g : TargetHandle} (hlocal : l.IsLocal)
    (h : Machine.Alike l.thread g m n) (hl : l.In m) (hg : m.targetAt l.thread = some g) :
    Machine.Concurs l.thread g x m n := by
  induction hx generalizing m n with
  | pure a => exact .pure h a
  | bind hx _ ihx ihy =>
    have hfirst := ihx h hl hg
    have hedits := (hx.runs.changes m hl).edits
    exact hfirst.bind (ihy _ hfirst.alike (hedits.line hl) ((hedits.sameLinks.targetAt _).trans hg))
  | look hy hown ih =>
    have hrest := ih m h hl hg
    have hsame := hown m n (h.sameFrame hl)
    exact hrest.of_run rfl (by rw [Act.run_get_bind, hsame]) ⟨rfl, rfl⟩
  | warn warning => exact ⟨rfl, h, rfl, rfl⟩
  | readToken htoken => exact h.readToken hl hg (hlocal _ htoken) s
  | entityOf => exact h.entityOf hg
  | assignToken htoken value => exact h.assignToken hl hg (hlocal _ htoken) value
  | enterSub => exact ⟨rfl, h.modifyOwn hl fun _ => ⟨rfl, rfl⟩, rfl, rfl⟩
  | leaveSub => exact ⟨rfl, h.modifyOwn hl fun _ => ⟨rfl, rfl⟩, rfl, rfl⟩

namespace Machine

variable {m n : Machine} {t : ThreadHandle} {g : TargetHandle} {f : FrameHandle} {frame : Frame}
  {below : List FrameHandle}

/-- **The host's answer** concurs with the line that asked. -/
theorem Alike.takeAnswer {l : Line} {assignTo : Option String} (h : Alike l.thread g m n)
    (hl : l.In m) (hg : m.targetAt l.thread = some g)
    (hassign : ∀ token, assignTo = some token → (TokenRef.of token).isGlobal = false) (call : Call)
    (answer : Except Failure Completion) :
    Concurs l.thread g (takeAnswer l call assignTo answer) m n := by
  have hmove : ∀ {m n}, Alike l.thread g m n → l.In m → ∀ index,
      Alike l.thread g (m.moveCursor l.frame index) (n.moveCursor l.frame index) :=
    fun h hl index => h.modifyOwn hl fun _ => ⟨rfl, rfl⟩
  rcases answer with failure | value | _
  · exact ⟨rfl, hmove h hl _, rfl, rfl⟩
  · have hresult : Alike l.thread g (m.resulted l.frame value) (n.resulted l.frame value) :=
      h.modifyOwn hl fun _ => ⟨rfl, rfl⟩
    have hl' : l.In (m.resulted l.frame value) :=
      Edits.line (edits_modifyFrame fun _ _ => .result value) hl
    cases assignTo with
    | none => exact ⟨rfl, hmove hresult hl' _, rfl, rfl⟩
    | some token =>
      have hset := hresult.assignToken hl' hg (hassign token rfl) value
      have hl'' := (edits_assignToken l.vantage token value (m.resulted l.frame value)).line hl'
      exact ⟨rfl, hmove hset.alike hl'' _, hset.globals⟩
  · exact ⟨rfl, h.modifyOwn hl fun _ => ⟨rfl, rfl⟩, rfl, rfl⟩

/-! ## Readying -/

/-- A scan finds the same in both machines, for they have the same commands of the frame. -/
theorem Alike.scanOf (h : Alike t g m n) (hf : m.frames.get? f = some frame)
    (ht : frame.thread = t) :
    n.scanOf frame = m.scanOf frame :=
  scanFrom_congr (fun c hc => h.command f frame hf ht c (List.mem_of_mem_drop hc)) _

theorem Alike.readied (h : Alike t g m n) (hf : m.frames.get? f = some frame)
    (ht : frame.thread = t) :
    Alike t g (m.readied f) (n.readied f) := by
  refine h.modifyFrame hf ht ?_ ⟨rfl, rfl⟩
  simp only [h.scanOf hf ht]

/-- The innermost frame leaves, and what is left is settled. -/
theorem Alike.settle_leave {fuel : Nat}
    (hsettle : ∀ m n : Machine, Alike t g m n → m.Sound → n.Sound → Concurs t g (settle fuel t) m n)
    (h : Alike t g m n) (hm : m.Sound) (hn : n.Sound) (hstack : m.stackAt t = some (f :: below))
    (hf : m.frames.get? f = some frame) (ht : frame.thread = t) :
    Concurs t g (settle fuel t) ((m.unstack t f).removeFrame f)
      ((n.unstack t f).removeFrame f) := by
  have hstack' : n.stackAt t = some (f :: below) := by rw [stackAt, h.thread, ← hstack]; rfl
  by_cases hbelow : below = []
  · subst hbelow
    have hempty : ∀ m : Machine, m.Sound → m.stackAt t = some [f] →
        ((m.unstack t f).removeFrame f).frameOf t = none := by
      intro m hm hstack
      rw [frameOf_eq_head?, hm.owned.stackAt_leave hstack, if_pos rfl]
      rfl
    have hrun := settle_of_frameOf_eq_none (hempty m hm hstack) fuel
    have hrun' := settle_of_frameOf_eq_none (hempty n hn hstack') fuel
    rw [cleanup_leave hstack] at hrun
    rw [cleanup_leave hstack'] at hrun'
    refine (Concurs.pure (h.cleanup hm hn) Signal.finished).of_run hrun hrun' ⟨?_, ?_⟩
    · rw [globals_removeFrame, globals_unstack, globals_cleanup]
    · rw [globals_removeFrame, globals_unstack, globals_cleanup]
  · exact hsettle _ _ (h.leave hf ht) (hm.leave hstack hbelow) (hn.leave hstack' hbelow)

/-- **Exhausted frames leave alike.** -/
theorem Alike.settle (fuel : Nat) (h : Alike t g m n) (hm : m.Sound) (hn : n.Sound) :
    Concurs t g (settle fuel t) m n := by
  induction fuel generalizing m n with
  | zero => exact ⟨rfl, h.cleanup hm hn, globals_cleanup m t, globals_cleanup n t⟩
  | succ fuel ih =>
    have htops : n.frameOf t = m.frameOf t := by rw [frameOf, frameOf, h.thread]
    cases htop : m.frameOf t with
    | none =>
      rw [htop] at htops
      have hrun := settle_of_frameOf_eq_none htop (fuel + 1)
      have hrun' := settle_of_frameOf_eq_none htops (fuel + 1)
      exact (Concurs.pure (h.cleanup hm hn) Signal.finished).of_run hrun hrun'
        ⟨globals_cleanup m t, globals_cleanup n t⟩
    | some f =>
      rw [htop] at htops
      obtain ⟨below, hstack⟩ := stackAt_of_frameOf htop
      obtain ⟨thread, hthread, heq⟩ := Option.map_eq_some_iff.1 hstack
      obtain ⟨frame, hf, ht⟩ := hm.owned.frame_of_stacked hthread (heq ▸ List.mem_cons_self)
      have hf' := (h.frame f frame ht).2 hf
      have hready := h.readied hf ht
      have hrun := (hm.frame f frame hf).run_settle htop hf fuel
      have hrun' := (hn.frame f frame hf').run_settle htops hf' fuel
      rw [h.scanOf hf ht] at hrun'
      by_cases hexhausted : (m.scanOf frame).readiness = .exhausted
      · rw [if_pos hexhausted] at hrun hrun'
        have hedits := edits_readied m f
        obtain ⟨scanned, hscanned, hown, -⟩ := hedits.frame_kept hf
        have hrest := hready.settle_leave (fun _ _ h hm hn => ih h hm hn) (hm.moves hedits.moves)
          (hn.moves (edits_readied n f).moves) ((hedits.sameLinks.stackAt t).trans hstack) hscanned
          (hown.trans ht)
        exact hrest.of_run hrun hrun' ⟨globals_removeFrame _ f, globals_removeFrame _ f⟩
      · rw [if_neg hexhausted] at hrun hrun'
        exact (Concurs.pure hready Signal.pending).of_run hrun hrun' ⟨rfl, rfl⟩

/-- The innermost frame leaves both machines in the same way. -/
theorem Alike.popFrame (h : Alike t g m n) (hm : m.Sound) (hn : n.Sound)
    (hstack : m.stackAt t = some (f :: below)) (hf : m.frames.get? f = some frame)
    (ht : frame.thread = t) : Concurs t g (popFrame t f) m n := by
  have hstack' : n.stackAt t = some (f :: below) := by rw [stackAt, h.thread, ← hstack]; rfl
  have hrest :=
    h.settle_leave (fun _ _ h hm hn => h.settle (below.length + 1) hm hn) hm hn hstack hf ht
  exact hrest.of_run (run_popFrame_of_stack hstack) (run_popFrame_of_stack hstack')
    ⟨globals_removeFrame _ f, globals_removeFrame _ f⟩

/-- Both machines load the same line. -/
theorem Alike.loadLine (h : Alike t g m n) (hf : m.frames.get? f = some frame)
    (ht : frame.thread = t) :
    Concurs t g (loadLine t f) m n := by
  have hf' := (h.frame f frame ht).2 hf
  have hcommand : frame.commands[frame.cursor]?.bind n.commands.get? =
      frame.commands[frame.cursor]?.bind m.commands.get? := by
    cases hc : frame.commands[frame.cursor]? with
    | none => rfl
    | some c => exact h.command f frame hf ht c (List.mem_of_getElem? hc)
  refine ⟨?_, ?_, ?_, ?_⟩
  all_goals simp only [Machine.loadLine, Act.run_get_bind, hf, hf', hcommand]
  all_goals cases frame.commands[frame.cursor]?.bind m.commands.get?
  all_goals first
    | rfl
    | exact h
    | exact h.modifyFrame hf ht rfl ⟨rfl, rfl⟩

/-- **The innermost frame is readied alike.** -/
theorem Alike.prepare (h : Alike t g m n) (hm : m.Sound) (hn : n.Sound)
    (hstack : m.stackAt t = some (f :: below)) : Concurs t g (prepare f) m n := by
  obtain ⟨thread, hthread, heq⟩ := Option.map_eq_some_iff.1 hstack
  obtain ⟨frame, hf, ht⟩ := hm.owned.frame_of_stacked hthread (heq ▸ List.mem_cons_self)
  have hf' := (h.frame f frame ht).2 hf
  have hthread' := h.thread.trans hthread
  have horder := heq ▸ hm.inOrder hthread
  have horder' := heq ▸ hn.inOrder hthread'
  cases hpending : frame.pending with
  | some call =>
    have hwaits : frame.pending.isSome = true := by rw [hpending]; rfl
    exact (Concurs.pure h (Except.ok (Readied.settled .idle))).of_run
      (horder.run_prepare_of_waiting hf hwaits)
      (horder'.run_prepare_of_waiting hf' hwaits) ⟨rfl, rfl⟩
  | none =>
    have hedits := edits_readied m f
    have hready := h.readied hf ht
    obtain ⟨scanned, hscanned, hown, -⟩ := hedits.frame_kept hf
    have hrun := horder'.run_prepare_eq hf' hpending
    rw [h.scanOf hf ht] at hrun
    refine Concurs.of_run ?_ (horder.run_prepare_eq hf hpending) hrun ⟨rfl, rfl⟩
    split
    · have hpop := hready.popFrame (hm.moves hedits.moves) (hn.moves (edits_readied n f).moves)
        ((hedits.sameLinks.stackAt t).trans hstack) hscanned (hown.trans ht)
      exact hpop.bind (.pure hpop.alike _)
    · exact hready.loadLine hscanned (hown.trans ht)

end Machine

end StepScript
